import CStructures.Lib.Run
import CStructures.Proofs.VectorTraverse

/-!
# The vector refines a sequence

Every call acts on the elements in the buffer like an operation on lists, as long as the
doubled count of a full vector and the sum of two counts stay below 2^32.
-/

namespace CStructures
open Lib

abbrev Elements := List (List Byte)

/-- The abstract sequence of elements of `size` bytes: what each call answers and leaves
behind. -/
inductive SequenceStep (size : Nat) : Elements → VectorCall × VectorAnswer → Elements → Prop
  | push {l x} : SequenceStep size l (.push x, .status 0) (l ++ [x])
  | emplace {l x} : SequenceStep size l (.emplace x, .element (some x)) (l ++ [x])
  | pop {l} : SequenceStep size l (.pop, .element l.getLast?) l.dropLast
  | back {l} : SequenceStep size l (.back, .element l.getLast?) l
  | insert {l i x} :
      SequenceStep size l (.insert i x, .status 0) (l.take (position i) ++ [x] ++ l.drop (position i))
  | insertEmplace {l i x} : SequenceStep size l (.insertEmplace i x, .element (some x))
      (l.take (position i) ++ [x] ++ l.drop (position i))
  | eraseIndex {l i} : SequenceStep size l (.eraseIndex i, .done) (l.eraseIdx (position i))
  | eraseElement {l p k} (h : p.toNat = size * k) (hk : k < l.length) :
      SequenceStep size l (.eraseElement p, .done) (l.eraseIdx k)
  | resize {l n extra} (h : extra.length = n.toNat - l.length) :
      SequenceStep size l (.resize n, .status 0) (l.take n.toNat ++ extra)
  | reserve {l n} : SequenceStep size l (.reserve n, .status 0) l
  | compact {l} : SequenceStep size l (.compact, .done) l
  | clear {l} : SequenceStep size l (.clear, .done) []
  | clearCompact {l} : SequenceStep size l (.clearCompact, .done) []
  | findElement {l x i} (h : position i = l.idxOf x) :
      SequenceStep size l (.findElement x, .index i) l
  | reverse {l} : SequenceStep size l (.reverse, .done) l.reverse

/-- The sequences of all vectors. -/
inductive SequencesStep (elementSize : Nat → UInt32) :
    (Nat → Elements) → StoreCall × VectorAnswer → (Nat → Elements) → Prop
  | on {a i call answer l} (h : SequenceStep (elementSize i).toNat (a i) (call, answer) l) :
      SequencesStep elementSize a (.on i call, answer) (Function.update a i l)
  | pushVector {a i j} (h : elementSize i = elementSize j) :
      SequencesStep elementSize a (.pushVector i j, .status 0) (Function.update a i (a i ++ a j))
  | pushOther {a i j} (h : elementSize i ≠ elementSize j) :
      SequencesStep elementSize a (.pushVector i j, .status (-2)) a

/-- The assertions of the functions, elements of the right size, and pointers to stored
elements. -/
def VectorCall.Fits (v : CsVector) : VectorCall → Prop
  | .push value => value.length = v.elementSize.toNat
  | .emplace value => value.length = v.elementSize.toNat
  | .insert index value => 0 ≤ index ∧ index ≤ toIdx v.count ∧ value.length = v.elementSize.toNat
  | .insertEmplace index value => 0 ≤ index ∧ index ≤ toIdx v.count ∧ value.length = v.elementSize.toNat
  | .eraseIndex index => 0 ≤ index ∧ index < toIdx v.count
  | .eraseElement element => ∃ k < v.count.toNat, v.PointsTo element k
  | .reverse => 0 < v.count.toNat
  | _ => True

/-- A full vector that grows has fewer than 2^31 elements. -/
def VectorCall.NoWrap (v : CsVector) : VectorCall → Prop
  | .push _ | .emplace _ | .insert _ _ | .insertEmplace _ _ =>
    v.count = v.capacity → 2 * v.count.toNat < 2 ^ 32
  | _ => True

def StoreCall.Fits (store : VectorStore) : StoreCall → Prop
  | .on vector call => call.Fits (store vector)
  | .pushVector _ _ => True

/-- No count that a call computes reaches 2^32. -/
def StoreCall.NoWrap (store : VectorStore) : StoreCall → Prop
  | .on vector call => call.NoWrap (store vector)
  | .pushVector vector sourceVector =>
    (store vector).elementSize = (store sourceVector).elementSize →
      (store vector).count.toNat + (store sourceVector).count.toNat < 2 ^ 32

def StoreCall.vector : StoreCall → Nat
  | .on vector _ => vector
  | .pushVector vector _ => vector

def CsVector.SizeFits (v : CsVector) : Prop := v.elementSize.toNat * (v.capacity.toNat + 1) < 2 ^ 32

section Decidable

instance CsVector.decidableSizeFits (v : CsVector) : Decidable v.SizeFits :=
  inferInstanceAs (Decidable (_ < _))

instance VectorCall.decidableFits (v : CsVector) (call : VectorCall) : Decidable (call.Fits v) := by
  cases call <;> unfold VectorCall.Fits CsVector.PointsTo <;> infer_instance

instance VectorCall.decidableNoWrap (v : CsVector) (call : VectorCall) : Decidable (call.NoWrap v) := by
  cases call <;> unfold VectorCall.NoWrap <;> infer_instance

instance StoreCall.decidableFits (store : VectorStore) (call : StoreCall) : Decidable (call.Fits store) := by
  cases call <;> unfold StoreCall.Fits <;> infer_instance

instance StoreCall.decidableNoWrap (store : VectorStore) (call : StoreCall) :
    Decidable (call.NoWrap store) := by
  cases call <;> unfold StoreCall.NoWrap <;> infer_instance

end Decidable

namespace CsVector

variable {v v' : CsVector} {value : List Byte}

/-- An operation that emplaces an element, if its result is within the bounds. -/
def Emplaces (v : CsVector) (r : Option UInt64 × CsVector) (k : Nat) : Prop :=
  v.elementSize.toNat * (r.2.capacity.toNat + 1) < 2 ^ 32 → ∃ p, r.1 = some p ∧ v.EmplacedAt r.2 p k

lemma Emplaces.copy {r : Option UInt64 × CsVector} {k : Nat} (h : v.Emplaces r k)
    (hv : value.length = v.elementSize.toNat)
    (hfits : v.elementSize.toNat * ((copyEmplaced value r).2.capacity.toNat + 1) < 2 ^ 32) :
    (copyEmplaced value r).1 = 0 ∧ (copyEmplaced value r).2.Sound ∧
      (copyEmplaced value r).2.elementSize = v.elementSize ∧
      (copyEmplaced value r).2.toList = v.toList.insertIdx k value := by
  obtain ⟨emplaced, v'⟩ := r
  cases emplaced with
  | none =>
    obtain ⟨p, hp, _⟩ := h hfits
    cases hp
  | some p =>
    obtain ⟨q, hq, hat⟩ := h hfits
    obtain rfl : p = q := Option.some.inj hq
    obtain ⟨hsound, hlist, _⟩ := hat.write hv
    exact ⟨rfl, hsound, hat.elementSize, hlist⟩

lemma Emplaces.write {r : Option UInt64 × CsVector} {k : Nat} (h : v.Emplaces r k)
    (hv : value.length = v.elementSize.toNat)
    (hfits : v.elementSize.toNat * ((writeEmplaced value r).2.capacity.toNat + 1) < 2 ^ 32) :
    (writeEmplaced value r).1 = .element (some value) ∧ (writeEmplaced value r).2.Sound ∧
      (writeEmplaced value r).2.elementSize = v.elementSize ∧
      (writeEmplaced value r).2.toList = v.toList.insertIdx k value := by
  obtain ⟨emplaced, v'⟩ := r
  cases emplaced with
  | none =>
    obtain ⟨p, hp, _⟩ := h hfits
    cases hp
  | some p =>
    obtain ⟨q, hq, hat⟩ := h hfits
    obtain rfl : p = q := Option.some.inj hq
    obtain ⟨hsound, hlist, hderef⟩ := hat.write hv
    exact ⟨by rw [writeEmplaced, hderef], hsound, hat.elementSize, hlist⟩

lemma insertIdx_count (v : CsVector) (value : List Byte) :
    v.toList.insertIdx v.count.toNat value = v.toList ++ [value] := by
  have hlen := @length_toList v
  rw [← hlen, List.insertIdx_length_self]

lemma insertIdx_position {index : Int64} (h0 : 0 ≤ index) (hle : index ≤ toIdx v.count) :
    v.toList.insertIdx (position index) value =
      v.toList.take (position index) ++ [value] ++ v.toList.drop (position index) := by
  apply insertIdx_eq_take_append_drop
  rw [length_toList]
  exact position_le h0 hle

lemma getLast?_toList (hpos : 0 < v.count.toNat) :
    v.toList.getLast? = some (v.elems (v.count.toNat - 1)) := by
  rw [List.getLast?_eq_getElem?, length_toList, List.getElem?_eq_getElem (by rw [length_toList]; omega)]
  simp only [toList, getElem_tabulate]

lemma toList_of_count (h : v.count.toNat = 0) : v.toList = [] := by
  rw [toList, h]
  rfl

/-- `vector_pop` removes the last element, if there is one, and points to it. -/
lemma pop_toList (h : v.Sound) :
    let r := vectorPop v
    r.2.Sound ∧ r.2.elementSize = v.elementSize ∧ r.1.map r.2.deref = v.toList.getLast? ∧
      r.2.toList = v.toList.dropLast := by
  intro r
  by_cases hpos : 0 < v.count.toNat
  · obtain ⟨herased, hderef⟩ := pop_spec h hpos
    refine ⟨herased.sound, herased.elementSize, hderef.trans (getLast?_toList hpos).symm, ?_⟩
    rw [herased.toList, ← List.dropLast_eq_eraseIdx (by rw [length_toList]; omega)]
  · have hzero : v.count = 0 := by_contra fun hne => hpos (toNat_ne_zero.mp hne)
    have hnil := @toList_of_count v (congrArg UInt32.toNat hzero)
    have hr : r = (none, v) := if_pos hzero
    rw [hr, hnil]
    exact ⟨h, rfl, rfl, rfl⟩

lemma back_toList (h : v.Sound) : (vectorBack v).map v.deref = v.toList.getLast? := by
  by_cases hpos : 0 < v.count.toNat
  · rw [back_spec h hpos, getLast?_toList hpos]
  · have hzero : v.count = 0 := by_contra fun hne => hpos (toNat_ne_zero.mp hne)
    have hback : vectorBack v = none := if_pos hzero
    rw [hback, toList_of_count (congrArg UInt32.toNat hzero)]
    rfl

lemma reserve_toList (h : v.Sound) (size : UInt32) (g : Grant) :
    let r := vectorReserve v size (some g)
    r.1 = 0 ∧ r.2.elementSize = v.elementSize ∧
      (v.elementSize.toNat * (r.2.capacity.toNat + 1) < 2 ^ 32 → r.2.Sound ∧ r.2.toList = v.toList) := by
  obtain ⟨hok, hcount, hes, hspec⟩ := reserve_spec h size g
  refine ⟨hok, hes, fun hbound => ?_⟩
  obtain ⟨hsound, _, helems⟩ := hspec hbound
  refine ⟨hsound, ?_⟩
  rw [toList, toList, hcount]
  exact tabulate_congr helems

lemma toList_resize {n : UInt32} (hn : v'.count = n)
    (helems : ∀ i < min v.count.toNat n.toNat, v'.elems i = v.elems i) :
    ∃ extra : Elements, extra.length = n.toNat - v.toList.length ∧
      v'.toList = v.toList.take n.toNat ++ extra := by
  refine ⟨v'.toList.drop v.count.toNat, ?_, ?_⟩
  · rw [List.length_drop, length_toList, length_toList, hn]
  · have htake : v.toList.take n.toNat = v'.toList.take v.count.toNat := by
      apply List.ext_getElem
      · simp [hn, Nat.min_comm]
      · intro i hi hi'
        simp only [List.length_take, length_toList, hn] at hi hi'
        simp only [List.getElem_take, toList, getElem_tabulate]
        exact (helems i (by omega)).symm
    rw [htake, List.take_append_drop]

theorem Sound.call (h : v.Sound) {call : VectorCall} (hfits : call.Fits v) (hwrap : call.NoWrap v)
    (g : Grant) :
    let r := vectorCall v (some g) call
    v.elementSize.toNat * (r.2.capacity.toNat + 1) < 2 ^ 32 →
      r.2.Sound ∧ r.2.elementSize = v.elementSize ∧
        SequenceStep v.elementSize.toNat v.toList (call, r.1) r.2.toList := by
  cases call with
  | push value =>
    intro r hbound
    obtain ⟨hst, hsound, hes, hlist⟩ := Emplaces.copy (emplace_spec h hwrap g) hfits hbound
    rw [insertIdx_count] at hlist
    refine ⟨hsound, hes, ?_⟩
    change SequenceStep _ _ (_, .status (copyEmplaced value (vectorEmplace v (some g))).1)
      (copyEmplaced value (vectorEmplace v (some g))).2.toList
    rw [hst, hlist]
    exact .push
  | emplace value =>
    intro r hbound
    obtain ⟨hans, hsound, hes, hlist⟩ := Emplaces.write (emplace_spec h hwrap g) hfits hbound
    rw [insertIdx_count] at hlist
    refine ⟨hsound, hes, ?_⟩
    change SequenceStep _ _ (_, (writeEmplaced value (vectorEmplace v (some g))).1)
      (writeEmplaced value (vectorEmplace v (some g))).2.toList
    rw [hans, hlist]
    exact .emplace
  | insert index value =>
    intro r hbound
    obtain ⟨h0, hle, hv⟩ := hfits
    obtain ⟨hst, hsound, hes, hlist⟩ := Emplaces.copy (insertEmplace_spec h hwrap h0 hle g) hv hbound
    rw [insertIdx_position h0 hle] at hlist
    refine ⟨hsound, hes, ?_⟩
    change SequenceStep _ _ (_, .status (copyEmplaced value (vectorInsertEmplace v index (some g))).1)
      (copyEmplaced value (vectorInsertEmplace v index (some g))).2.toList
    rw [hst, hlist]
    exact .insert
  | insertEmplace index value =>
    intro r hbound
    obtain ⟨h0, hle, hv⟩ := hfits
    obtain ⟨hans, hsound, hes, hlist⟩ := Emplaces.write (insertEmplace_spec h hwrap h0 hle g) hv hbound
    rw [insertIdx_position h0 hle] at hlist
    refine ⟨hsound, hes, ?_⟩
    change SequenceStep _ _ (_, (writeEmplaced value (vectorInsertEmplace v index (some g))).1)
      (writeEmplaced value (vectorInsertEmplace v index (some g))).2.toList
    rw [hans, hlist]
    exact .insertEmplace
  | pop =>
    intro r _
    obtain ⟨hsound, hes, hans, hlist⟩ := pop_toList h
    refine ⟨hsound, hes, ?_⟩
    change SequenceStep _ _ (_, .element ((vectorPop v).1.map (vectorPop v).2.deref)) (vectorPop v).2.toList
    rw [hans, hlist]
    exact .pop
  | back =>
    intro r _
    refine ⟨h, rfl, ?_⟩
    change SequenceStep _ _ (_, .element ((vectorBack v).map v.deref)) v.toList
    rw [back_toList h]
    exact .back
  | eraseIndex index =>
    intro r _
    have herased := eraseIndex_spec h hfits.1 hfits.2
    refine ⟨herased.sound, herased.elementSize, ?_⟩
    change SequenceStep _ _ (_, .done) (vectorEraseIndex v index).toList
    rw [herased.toList]
    exact .eraseIndex
  | eraseElement element =>
    intro r _
    obtain ⟨k, hk, hp⟩ := hfits
    have herased := eraseElement_spec h hk hp
    refine ⟨herased.sound, herased.elementSize, ?_⟩
    change SequenceStep _ _ (_, .done) (vectorEraseElement v element).toList
    rw [herased.toList]
    exact .eraseElement hp (by rwa [length_toList])
  | resize size =>
    intro r hbound
    obtain ⟨hok, hes, hspec⟩ := resize_spec h size g
    obtain ⟨hsound, hcount, helems⟩ := hspec hbound
    obtain ⟨extra, hlen, hlist⟩ := toList_resize hcount helems
    refine ⟨hsound, hes, ?_⟩
    change SequenceStep _ _ (_, .status (vectorResize v size (some g)).1)
      (vectorResize v size (some g)).2.toList
    rw [hok, hlist]
    exact .resize hlen
  | reserve size =>
    intro r hbound
    obtain ⟨hok, hes, hspec⟩ := reserve_toList h size g
    obtain ⟨hsound, hlist⟩ := hspec hbound
    refine ⟨hsound, hes, ?_⟩
    change SequenceStep _ _ (_, .status (vectorReserve v size (some g)).1)
      (vectorReserve v size (some g)).2.toList
    rw [hok, hlist]
    exact .reserve
  | compact =>
    intro r hbound
    obtain ⟨hes, hspec⟩ := compact_spec h g
    obtain ⟨hsound, hlist⟩ := hspec hbound
    refine ⟨hsound, hes, ?_⟩
    change SequenceStep _ _ (_, .done) (vectorCompact v (some g)).toList
    rw [hlist]
    exact .compact
  | clear => exact fun _ => ⟨clear_sound h, rfl, .clear⟩
  | clearCompact => exact fun _ => ⟨clearCompact_sound h, rfl, .clearCompact⟩
  | findElement value => exact fun _ => ⟨h, rfl, .findElement (findElement_spec h value)⟩
  | reverse =>
    intro r _
    obtain ⟨hsound, hlist⟩ := reverse_spec h hfits
    refine ⟨hsound, vectorCall_elementSize v (some g) .reverse, ?_⟩
    change SequenceStep _ _ (_, .done) (vectorReverse v).toList
    rw [hlist]
    exact .reverse

/-- `vector_push_vector` appends the elements of the source, which may be the vector itself. -/
theorem pushVector_spec {store : VectorStore} {i j : Nat} (h : (store i).Sound)
    (hes : (store i).elementSize = (store j).elementSize)
    (hsum : (store i).count.toNat + (store j).count.toNat < 2 ^ 32) (g : Grant) :
    ∃ v, vectorPushVector store i j (some g) = (0, Function.update store i v) ∧
      (v.elementSize.toNat * (v.capacity.toNat + 1) < 2 ^ 32 →
        v.Sound ∧ v.elementSize = (store i).elementSize ∧ v.toList = (store i).toList ++ (store j).toList) := by
  have hle := h.count_le
  have hnew : ((store i).count + (store j).count).toNat =
      (store i).count.toNat + (store j).count.toNat := by
    rw [UInt32.toNat_add]
    exact Nat.mod_eq_of_lt hsum
  have hroom : ∃ v, (if (store i).count + (store j).count > (store i).capacity then
      vectorRealloc (store i) vecInvalidIndex ((store i).count + (store j).count) (some g)
      else (0, store i)) = (0, v) ∧ v.count = (store i).count ∧
      v.elementSize = (store i).elementSize ∧
      ((store i).elementSize.toNat * (v.capacity.toNat + 1) < 2 ^ 32 → v.Sound ∧
        (store i).count.toNat + (store j).count.toNat ≤ v.capacity.toNat ∧
        ∀ k < (store i).count.toNat, v.elems k = (store i).elems k) := by
    split_ifs with hgrow
    · have hgrow' := UInt32.lt_iff_toNat_lt.mp hgrow
      obtain ⟨hok, hcap, hcount, hvs, hspec⟩ := @realloc_spec (store i)
        ((store i).count + (store j).count) h (by omega) (fun _ => by omega) g
      have hne : (store i).count + (store j).count ≠ 0 := toNat_ne_zero.mpr (by omega)
      have hcapn : (store i).reallocCapacity ((store i).count + (store j).count) =
          (store i).count + (store j).count := by simp [reallocCapacity, hne]
      refine ⟨_, Prod.ext hok rfl, hcount, hvs, fun hfits => ?_⟩
      obtain ⟨hsound, helems⟩ := hspec hfits
      exact ⟨hsound, by rw [hcap, hcapn, hnew], helems⟩
    · have hgrow' := UInt32.lt_iff_toNat_lt.not.mp hgrow
      exact ⟨store i, rfl, rfl, rfl, fun _ => ⟨h, by omega, fun _ _ => rfl⟩⟩
  obtain ⟨v, hval, hcount, hvs, hspec⟩ := hroom
  set w := Function.update store i v j with hw
  have hwcount : w.count = (store j).count := by
    by_cases hij : j = i
    · rw [hw, hij, Function.update_self, hcount]
    · rw [hw, Function.update_of_ne hij]
  have hwes : w.elementSize = v.elementSize := by
    by_cases hij : j = i
    · rw [hw, hij, Function.update_self]
    · rw [hw, Function.update_of_ne hij, hvs, hes]
  refine ⟨{ v.write (v.count * v.elementSize).toUInt64 (slice w.bytes 0 (w.count * v.elementSize).toNat)
      with count := v.count + w.count }, ?_, fun hfits => ?_⟩
  · unfold vectorPushVector
    rw [if_neg (not_not.mpr hes)]
    dsimp only
    rw [hval]
    dsimp only
    rw [if_neg (by simp), Function.update_idem]
    rfl
  · change v.elementSize.toNat * (v.capacity.toNat + 1) < 2 ^ 32 at hfits
    obtain ⟨hsound, hroom, helems⟩ := hspec (by rw [← hvs]; exact hfits)
    have hwelems : ∀ k < (store j).count.toNat, w.elems k = (store j).elems k := by
      intro k hk
      by_cases hij : j = i
      · rw [hw, hij, Function.update_self]
        exact helems k (by rw [← hij]; exact hk)
      · rw [hw, Function.update_of_ne hij]
    have happend := elems_append hsound hwes (by rw [hcount, hwcount]; exact hroom)
    have hsum' : (v.count + w.count).toNat = (store i).count.toNat + (store j).count.toNat := by
      rw [hcount, hwcount, hnew]
    refine ⟨hsound.of_sameBuffer rfl rfl setBytes_size (by change (v.count + w.count).toNat ≤ _; omega),
      hvs, ?_⟩
    rw [toList]
    change tabulate _ (v.count + w.count).toNat = _
    rw [hsum', toList, toList]
    apply tabulate_append
    · intro k hk
      rw [← helems k hk]
      exact (happend k).1 (by rw [hcount]; exact hk)
    · intro k hk
      rw [← hwelems k hk, ← hcount]
      exact (happend k).2 (by rw [hwcount]; exact hk)

/-! ### Whole runs -/

/-- Other bytes than those of the elements may have changed. -/
def Scrambled (v v' : CsVector) : Prop :=
  ∃ bytes, v' = v.setBytes bytes ∧ ∀ i < v.count.toNat, v'.elems i = v.elems i

/-- One call whose allocation succeeds and that satisfies `P`, on buffers with any bytes
beyond the elements. The size of the buffer does not wrap. -/
def GrantedStep (P : VectorStore → StoreCall → Prop) (store : VectorStore)
    (l : StoreCall × VectorAnswer) (store' : VectorStore) : Prop :=
  ∃ store₁ g, (∀ i, (store i).Scrambled (store₁ i)) ∧ l.1.Fits store₁ ∧ P store₁ l.1 ∧
    storeCall store₁ (some g) l.1 = (l.2, store') ∧ (store' l.1.vector).SizeFits

def Represents (elementSize : Nat → UInt32) (store : VectorStore) (a : Nat → Elements) : Prop :=
  ∀ i, (store i).Sound ∧ (store i).elementSize = elementSize i ∧ (store i).toList = a i

variable {elementSize : Nat → UInt32} {store store' : VectorStore} {a : Nat → Elements}

lemma Represents.scrambled (h : Represents elementSize store a)
    (hs : ∀ i, (store i).Scrambled (store' i)) : Represents elementSize store' a := by
  intro i
  obtain ⟨hsound, hes, hlist⟩ := h i
  obtain ⟨bytes, hset, helems⟩ := hs i
  refine ⟨?_, ?_, ?_⟩
  · rw [hset]
    exact hsound.of_sameBuffer rfl rfl setBytes_size hsound.count_le
  · rw [hset, ← hes]
    rfl
  · have hcount : (store' i).count = (store i).count := by
      rw [hset]
      rfl
    rw [← hlist, toList, toList, hcount]
    exact tabulate_congr helems

lemma Represents.update (h : Represents elementSize store a) {i : Nat} {v : CsVector}
    (hsound : v.Sound) (hes : v.elementSize = elementSize i) :
    Represents elementSize (Function.update store i v) (Function.update a i v.toList) := by
  intro j
  by_cases hij : j = i
  · subst hij
    rw [Function.update_self, Function.update_self]
    exact ⟨hsound, hes, rfl⟩
  · rw [Function.update_of_ne hij, Function.update_of_ne hij]
    exact h j

theorem Represents.step (h : Represents elementSize store a) {l : StoreCall × VectorAnswer}
    (hstep : GrantedStep (fun store call => call.NoWrap store) store l store') :
    ∃ a', SequencesStep elementSize a l a' ∧ Represents elementSize store' a' := by
  obtain ⟨store₁, g, hs, hfits, hwrap, hval, hbound⟩ := hstep
  have hrep := h.scrambled hs
  obtain ⟨call, answer⟩ := l
  cases call with
  | on i call =>
    obtain ⟨hsound, hes, hlist⟩ := hrep i
    have hpair : (vectorCall (store₁ i) (some g) call).1 = answer ∧
        Function.update store₁ i (vectorCall (store₁ i) (some g) call).2 = store' := Prod.ext_iff.mp hval
    obtain ⟨rfl, rfl⟩ := hpair
    change (Function.update store₁ i (vectorCall (store₁ i) (some g) call).2 i).SizeFits at hbound
    rw [Function.update_self, SizeFits, vectorCall_elementSize] at hbound
    obtain ⟨hsound', hes', hact⟩ := hsound.call hfits hwrap g hbound
    rw [hlist, hes] at hact
    exact ⟨_, .on hact, hrep.update hsound' (hes'.trans hes)⟩
  | pushVector i j =>
    obtain ⟨hsound, hes, hlist⟩ := hrep i
    obtain ⟨_, hes', hlist'⟩ := hrep j
    have hpair : .status (vectorPushVector store₁ i j (some g)).1 = answer ∧
        (vectorPushVector store₁ i j (some g)).2 = store' := Prod.ext_iff.mp hval
    obtain ⟨rfl, rfl⟩ := hpair
    by_cases hsame : (store₁ i).elementSize = (store₁ j).elementSize
    · obtain ⟨v, hpush, hspec⟩ := pushVector_spec hsound hsame (hwrap hsame) g
      change ((vectorPushVector store₁ i j (some g)).2 i).SizeFits at hbound
      rw [hpush] at hbound ⊢
      dsimp only at hbound ⊢
      rw [Function.update_self] at hbound
      obtain ⟨hsound', hves, happend⟩ := hspec hbound
      refine ⟨_, .pushVector (by rw [← hes, ← hes', hsame]), ?_⟩
      rw [← hlist, ← hlist', ← happend]
      exact hrep.update hsound' (hves.trans hes)
    · have hpush : vectorPushVector store₁ i j (some g) = (-2, store₁) := if_pos hsame
      rw [hpush]
      exact ⟨_, .pushOther (by rw [← hes, ← hes']; exact hsame), hrep⟩

lemma represents_init (hpos : ∀ i, 0 < elementSize i) :
    Represents elementSize (fun i => vectorInit (elementSize i)) fun _ => [] := by
  intro i
  have hes := (elementSize i).toNat_lt
  refine ⟨⟨UInt32.lt_iff_toNat_lt.mp (hpos i), le_rfl, ?_, ?_, ⟨fun _ => rfl, fun _ => rfl⟩⟩, rfl, rfl⟩
  · change (elementSize i).toNat * (0 + 1) < 2 ^ 32
    omega
  · intro d hd
    cases hd

/-- The elements, as `vector_get_element` addresses them, are those of the list. -/
structure Shows (v : CsVector) (l : Elements) : Prop where
  count_le : v.count ≤ v.capacity
  length : v.count.toNat = l.length
  elements : ∀ i : UInt32, i < v.count → l[i.toNat]? = some (v.deref (vectorGetElement v (toIdx i)))

lemma Sound.shows (h : v.Sound) : v.Shows v.toList where
  count_le := UInt32.le_iff_toNat_le.mpr h.count_le
  length := length_toList.symm
  elements := by
    intro i hi
    have hi' := UInt32.lt_iff_toNat_lt.mp hi
    have hle := h.count_le
    have hp : v.PointsTo (vectorGetElement v (toIdx i)) i.toNat := by
      rw [← position_toIdx i]
      exact pointsTo_index (h.offset_lt (by rw [position_toIdx]; omega))
    rw [hp.deref, List.getElem?_eq_getElem (by rwa [length_toList])]
    simp only [toList, getElem_tabulate]

end CsVector

/-- Over every run from `vector_init` in which allocations succeed, the sizes of the buffers
do not wrap, and no count that a call computes reaches 2^32, the calls on the vectors are
answered as by lists, and the buffers keep the elements of these lists. -/
theorem vector_refines_sequence {elementSize : Nat → UInt32} (hpos : ∀ i, 0 < elementSize i)
    {ls : List (StoreCall × VectorAnswer)} {store : VectorStore}
    (hrun : Run (CsVector.GrantedStep fun store call => call.NoWrap store)
      (fun i => vectorInit (elementSize i)) ls store) :
    ∃ a, Run (SequencesStep elementSize) (fun _ => []) ls a ∧ ∀ i, (store i).Shows (a i) := by
  have hstep : ∀ (store : VectorStore) a l store', CsVector.Represents elementSize store a →
      CsVector.GrantedStep (fun store call => call.NoWrap store) store l store' →
      ∃ a', SequencesStep elementSize a l a' ∧ CsVector.Represents elementSize store' a' :=
    fun _ _ _ _ hrep h => hrep.step h
  obtain ⟨a, harun, hrep⟩ := Run.simulate (CsVector.Represents elementSize) hstep
    (CsVector.represents_init hpos) hrun
  refine ⟨a, harun, fun i => ?_⟩
  rw [← (hrep i).2.2]
  exact (hrep i).1.shows

def grantedStoreCall (store : VectorStore) (call : StoreCall) : Option (VectorAnswer × VectorStore) :=
  let r := storeCall store (some ⟨16, fun _ => 0⟩) call
  if call.Fits store ∧ call.NoWrap store ∧ (r.2 call.vector).SizeFits then some r else none

lemma CsVector.Scrambled.refl (v : CsVector) : CsVector.Scrambled v v :=
  ⟨v.bytes, v.setBytes_bytes.symm, fun _ _ => rfl⟩

lemma grantedStoreCall_step {store store' : VectorStore} {call : StoreCall} {answer : VectorAnswer}
    (h : grantedStoreCall store call = some (answer, store')) :
    CsVector.GrantedStep (fun store call => call.NoWrap store) store (call, answer) store' := by
  unfold grantedStoreCall at h
  dsimp only at h
  split_ifs at h with hcall
  obtain ⟨hfits, hwrap, hbound⟩ := hcall
  rw [Option.some.inj h] at hbound
  exact ⟨store, _, fun i => .refl (store i), hfits, hwrap, Option.some.inj h, hbound⟩

def sequenceCalls : List StoreCall :=
  [.on 0 (.push [1, 2]), .on 0 (.insert 0 [3, 4]), .pushVector 0 0, .on 0 (.eraseIndex 1),
    .on 0 .reverse, .on 0 .pop, .on 0 .pop, .on 0 .pop, .on 0 .pop]

/-- Insertion in front, a vector appended to itself, erasure and reversal. -/
theorem vector_refines_sequence_short : ∃ ls, ∃ store : VectorStore,
    ls.map Prod.snd = [.status 0, .status 0, .status 0, .done, .done, .element (some [3, 4]),
      .element (some [3, 4]), .element (some [1, 2]), .element none] ∧
    ∃ a, Run (SequencesStep fun _ => 2) (fun _ => []) ls a ∧ ∀ i, (store i).Shows (a i) := by
  have hanswers : (runCalls grantedStoreCall (fun _ => vectorInit 2) sequenceCalls).map
      (fun r => r.1.map Prod.snd) = some [.status 0, .status 0, .status 0, .done, .done,
        .element (some [3, 4]), .element (some [3, 4]), .element (some [1, 2]), .element none] := by
    decide +kernel
  obtain ⟨ls, store, hrun, hls⟩ := Run.exists_of_runCalls (fun _ _ _ _ h => grantedStoreCall_step h) hanswers
  exact ⟨ls, store, hls, vector_refines_sequence (fun _ => by decide) hrun⟩

/-- A full vector of 2^31 bytes is shrunk by the next push, as its doubled count is 0. -/
theorem vector_count_exceeds_capacity : ∃ store : VectorStore,
    Run (CsVector.GrantedStep fun _ _ => True) (fun _ => vectorInit 1)
      [(.on 0 (.resize 2147483648), .status 0), (.on 0 (.push [7]), .status 0)] store ∧
    (store 0).count = 2147483649 ∧ (store 0).capacity = 0 := by
  refine ⟨_, .cons ⟨_, ⟨16, fun _ => 0⟩, fun _ => .refl _, trivial, trivial, rfl, ?_⟩
    (.cons ⟨_, ⟨16, fun _ => 0⟩, fun _ => .refl _, ?_, trivial, rfl, ?_⟩ (.nil _)), ?_⟩
  · decide
  · rfl
  · decide
  · decide

end CStructures
