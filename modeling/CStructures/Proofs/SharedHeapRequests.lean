import CStructures.Model.SharedHeap
import CStructures.Proofs.BtreeFailure
import CStructures.Proofs.VectorReverse

/-!
# What the containers ask of the heap

The requests of vectors and btrees against the buffers that their functions leave: a block is
released or replaced only by the container that owns it, and a block that is granted is kept.
-/

namespace CStructures
open Lib

/-- The block of a container. -/
def ownedBlock : Option Block → Footprint
  | some data => {⟨data.addr, UInt64.ofNat data.size⟩}
  | none => 0

/-- The request fits the buffer before it, and `after` is the buffer that each answer leaves. -/
def Request.Describes (data : Option Block) (after : AllocAnswer → Option Block) : Request → Prop
  | .nothing => ∀ answer, ownedBlock (after answer) = ownedBlock data
  | .malloc size => data = none ∧ ∀ g, ownedBlock (after (some g)) = {⟨g.addr, size⟩}
  | .realloc p newSize => (∃ d ∈ data, d.addr = p) ∧ ∀ g, ownedBlock (after (some g)) = {⟨g.addr, newSize⟩}
  | .free p => (∃ d ∈ data, d.addr = p) ∧ ∀ answer, ownedBlock (after answer) = 0

/-- No block of no bytes is asked for. -/
def Request.Positive : Request → Prop
  | .malloc size => 0 < size
  | .realloc _ newSize => 0 < newSize
  | _ => True

/-- The answer to the request is looked at. -/
def Request.Asks : Request → Prop
  | .malloc _ | .realloc _ _ => True
  | _ => False

section Describes

variable {data : Option Block} {after after' : AllocAnswer → Option Block} {req : Request}

lemma Request.Describes.congr (h : req.Describes data after)
    (hafter : ∀ answer, ownedBlock (after' answer) = ownedBlock (after answer)) : req.Describes data after' := by
  cases req with
  | nothing => exact fun answer => (hafter answer).trans (h answer)
  | malloc size => exact ⟨h.1, fun g => (hafter _).trans (h.2 g)⟩
  | realloc p newSize => exact ⟨h.1, fun g => (hafter _).trans (h.2 g)⟩
  | free p => exact ⟨h.1, fun answer => (hafter _).trans (h.2 answer)⟩

lemma xfree_describes (hafter : ∀ answer, after answer = none) : (xfree data).Describes data after := by
  cases data with
  | none =>
    intro answer
    rw [hafter]
  | some d =>
    refine ⟨⟨d, rfl, rfl⟩, fun answer => ?_⟩
    rw [hafter]
    rfl

lemma xfree_positive : (xfree data).Positive := by
  cases data <;> exact trivial

/-- A request that describes what happens to a buffer makes its owner the owner of the buffer
that is left. -/
theorem Request.Describes.owns {σ : Type} {H : HeapApi σ} {inv : σ → BlockMap → Prop}
    (hH : H.Keeps Grant.addr inv) (h : req.Describes data after) (hpos : req.Positive) :
    Owns inv (ownedBlock data) (req.perform H) fun answer F =>
      F = ownedBlock (after answer) ∧ (req.Asks → answer.isSome) := by
  cases req with
  | nothing => exact Owns.pure ⟨(h none).symm, False.elim⟩
  | malloc size =>
    obtain ⟨rfl, hafter⟩ := h
    refine (hH.owns_malloc hpos).mono ?_
    rintro _ _ ⟨g, rfl, rfl⟩
    exact ⟨(hafter g).symm, fun _ => rfl⟩
  | realloc p newSize =>
    obtain ⟨⟨d, hd, rfl⟩, hafter⟩ := h
    rw [Option.mem_def] at hd
    subst hd
    refine (hH.owns_realloc hpos).mono ?_
    rintro _ _ ⟨g, rfl, rfl⟩
    exact ⟨(hafter g).symm, fun _ => rfl⟩
  | free p =>
    obtain ⟨⟨d, hd, rfl⟩, hafter⟩ := h
    rw [Option.mem_def] at hd
    subst hd
    refine hH.owns_free.bind ?_
    rintro _ _ rfl
    exact Owns.pure ⟨(hafter none).symm, False.elim⟩

end Describes

instance Books.decidableCovers (b : Books) (cap : UInt32) : Decidable (b.Covers cap) :=
  inferInstanceAs (Decidable (_ < _))

instance Books.decidableGrowable (b : Books) : Decidable b.Growable :=
  inferInstanceAs (Decidable (_ → _))

instance Books.decidableCoversAbove (b : Books) (cap n : UInt32) : Decidable (cap < n → b.Covers n) :=
  letI := UInt32.decLt cap n
  inferInstanceAs (Decidable (_ → _))

instance VectorCall.decidableAffordable (v : CsVector) : (call : VectorCall) → Decidable (call.Affordable v)
  | .push _ | .emplace _ | .insert _ _ | .insertEmplace _ _ => v.books.decidableGrowable
  | .resize n | .reserve n => v.books.decidableCoversAbove v.capacity n
  | .pop | .back | .eraseIndex _ | .eraseElement _ | .compact | .clear | .clearCompact | .findElement _
  | .reverse => instDecidableTrue

instance StoreCall.decidableAffordable (store : VectorStore) : (call : StoreCall) → Decidable (call.Affordable store)
  | .on i call => call.decidableAffordable (store i)
  | .pushVector i j =>
    letI := (store i).books.decidableCoversAbove (store i).capacity ((store i).count + (store j).count)
    inferInstanceAs (Decidable (_ → _ → _))

namespace CsVector

variable {v : CsVector}

lemma ownedBlock_setBytes (v : CsVector) (bytes : Bytes) : ownedBlock (v.setBytes bytes).data = ownedBlock v.data := by
  unfold setBytes
  cases v.data <;> rfl

lemma realloc_describes (v : CsVector) (index : Int64) (n : UInt32) :
    (vectorReallocRequest v n).Describes v.data fun answer => (vectorRealloc v index n answer).2.data := by
  unfold vectorReallocRequest vectorRealloc
  cases v.data with
  | none => exact ⟨rfl, fun g => rfl⟩
  | some d =>
    refine ⟨⟨d, rfl, rfl⟩, fun g => ?_⟩
    dsimp only
    split_ifs <;> rfl

/-- The data after a function that reallocates first if `full`. -/
lemma reallocIf_describes {full : Prop} [Decidable full] {shifted : CsVector} (index : Int64) (n : UInt32)
    (hshifted : ownedBlock shifted.data = ownedBlock v.data) :
    (if full then vectorReallocRequest v n else .nothing).Describes v.data fun answer =>
      (if full then vectorRealloc v index n answer else (0, shifted)).2.data := by
  split_ifs
  · exact realloc_describes v index n
  · exact fun _ => hshifted

lemma data_emplaced (r : Int × CsVector) (pointer : CsVector → UInt64) :
    (if r.1 ≠ 0 then (none, r.2)
      else (some (pointer r.2), ({ r.2 with count := r.2.count + 1 } : CsVector)) :
        Option UInt64 × CsVector).2.data = r.2.data := by
  split_ifs <;> rfl

lemma emplace_describes (v : CsVector) :
    (if v.count = v.capacity then vectorReallocRequest v (v.count * vecExpandFactor)
      else .nothing).Describes v.data fun answer => (vectorEmplace v answer).2.data :=
  (reallocIf_describes vecInvalidIndex _ rfl).congr fun _ =>
    congrArg ownedBlock (data_emplaced _ fun v => (v.elementSize * v.count).toUInt64)

lemma insertEmplace_describes (v : CsVector) (index : Int64) :
    (if v.count = v.capacity then vectorReallocRequest v (v.count * vecExpandFactor)
      else .nothing).Describes v.data fun answer => (vectorInsertEmplace v index answer).2.data :=
  (reallocIf_describes index _ (ownedBlock_setBytes v _)).congr fun _ =>
    congrArg ownedBlock (data_emplaced _ fun v => (index * toIdx v.elementSize).toUInt64)

lemma ownedBlock_copyEmplaced (value : List Byte) (r : Option UInt64 × CsVector) :
    ownedBlock (copyEmplaced value r).2.data = ownedBlock r.2.data := by
  obtain ⟨emplaced, v⟩ := r
  cases emplaced with
  | none => rfl
  | some p => exact ownedBlock_setBytes _ _

lemma ownedBlock_writeEmplaced (value : List Byte) (r : Option UInt64 × CsVector) :
    ownedBlock (writeEmplaced value r).2.data = ownedBlock r.2.data := by
  obtain ⟨emplaced, v⟩ := r
  cases emplaced with
  | none => rfl
  | some p => exact ownedBlock_setBytes _ _

lemma reserve_describes (v : CsVector) (n : UInt32) :
    (if v.capacity < n then vectorReallocRequest v n else .nothing).Describes v.data fun answer =>
      (vectorReserve v n answer).2.data := by
  refine (reallocIf_describes vecInvalidIndex n (rfl : ownedBlock v.data = _)).congr fun answer => ?_
  unfold vectorReserve
  split_ifs with hlt
  · dsimp only
    split_ifs <;> rfl
  · rfl

lemma data_pop (v : CsVector) : (vectorPop v).2.data = v.data := by
  unfold vectorPop
  split_ifs <;> rfl

/-- The request that `vectorRequest` gives for a call is the one that its function makes. -/
theorem call_describes (v : CsVector) (call : VectorCall) :
    (vectorRequest v call).Describes v.data fun answer => (vectorCall v answer call).2.data := by
  cases call with
  | push value => exact (emplace_describes v).congr fun answer => ownedBlock_copyEmplaced _ _
  | emplace value => exact (emplace_describes v).congr fun answer => ownedBlock_writeEmplaced _ _
  | insert index value => exact (insertEmplace_describes v index).congr fun answer => ownedBlock_copyEmplaced _ _
  | insertEmplace index value =>
    exact (insertEmplace_describes v index).congr fun answer => ownedBlock_writeEmplaced _ _
  | pop => exact fun _ => congrArg ownedBlock (data_pop v)
  | eraseIndex index =>
    intro _
    change ownedBlock (vectorEraseIndex v index).data = _
    unfold vectorEraseIndex
    split_ifs
    · exact congrArg ownedBlock (data_pop v)
    · exact ownedBlock_setBytes _ _
  | eraseElement element =>
    intro _
    change ownedBlock (vectorEraseElement v element).data = _
    unfold vectorEraseElement
    dsimp only
    split_ifs
    · exact ownedBlock_setBytes _ _
    · rfl
  | resize n =>
    refine (reserve_describes v n).congr fun answer => congrArg ownedBlock ?_
    change (vectorResize v n answer).2.data = _
    unfold vectorResize
    dsimp only
    split_ifs <;> rfl
  | reserve n => exact reserve_describes v n
  | compact =>
    change (if v.count = 0 then xfree v.data else vectorReallocRequest v v.count).Describes v.data
      fun answer => (vectorCompact v answer).data
    unfold vectorCompact
    split_ifs
    · exact xfree_describes fun _ => rfl
    · exact realloc_describes v vecInvalidIndex v.count
  | clearCompact => exact xfree_describes fun _ => rfl
  | reverse =>
    intro _
    obtain ⟨bytes, hbytes⟩ := vectorReverse_eq_setBytes v
    change ownedBlock (vectorReverse v).data = _
    rw [hbytes]
    exact ownedBlock_setBytes _ _
  | _ => exact fun _ => rfl

lemma reallocRequest_asks (v : CsVector) (n : UInt32) : (vectorReallocRequest v n).Asks := by
  unfold vectorReallocRequest
  cases v.data <;> exact trivial

/-- An answer that a call does not ask for does not matter. -/
lemma call_congr {call : VectorCall} (h : ¬(vectorRequest v call).Asks) (answer answer' : AllocAnswer) :
    vectorCall v answer call = vectorCall v answer' call := by
  have hroom : ∀ {full : Prop} [Decidable full] {n},
      ¬(if full then vectorReallocRequest v n else .nothing).Asks → ¬full := by
    intro full _ n hasks hfull
    rw [if_pos hfull] at hasks
    exact hasks (reallocRequest_asks v n)
  cases call with
  | push value | emplace value =>
    have hroom := hroom h
    simp only [vectorCall, vectorPush, vectorEmplace, if_neg hroom]
  | insert index value | insertEmplace index value =>
    have hroom := hroom h
    simp only [vectorCall, vectorInsert, vectorInsertEmplace, if_neg hroom]
  | resize n =>
    have hroom := hroom h
    simp only [vectorCall, vectorResize, vectorReserve, if_neg hroom]
  | reserve n =>
    have hroom := hroom h
    simp only [vectorCall, vectorReserve, if_neg hroom]
  | compact =>
    have hzero : v.count = 0 := by
      by_contra hne
      refine h ?_
      change (if v.count = 0 then xfree v.data else vectorReallocRequest v v.count).Asks
      rw [if_neg hne]
      exact reallocRequest_asks v _
    simp only [vectorCall, vectorCompact, if_pos hzero]
  | _ => rfl

lemma reallocRequest_positive {n : UInt32} (hes : 0 < v.elementSize.toNat)
    (hcovers : v.books.Covers (v.books.reallocCapacity n)) : (vectorReallocRequest v n).Positive := by
  have hpos : ∀ {cap}, v.books.Covers cap → 0 < UInt64.ofNat (v.requestSize cap) := by
    intro cap hcovers
    have hle : (cap.toNat + 1) * v.elementSize.toNat ≤ v.requestSize cap := Books.le_request_iff.mpr hcovers
    have hlt : v.requestSize cap < 2 ^ 32 := ((cap + 1) * v.elementSize).toNat_lt
    have hmul : 0 < (cap.toNat + 1) * v.elementSize.toNat := Nat.mul_pos (Nat.succ_pos _) hes
    rw [UInt64.lt_iff_toNat_lt, UInt64.toNat_ofNat', Nat.mod_eq_of_lt (by omega)]
    exact hmul.trans_le hle
  unfold vectorReallocRequest
  cases hd : v.data with
  | none =>
    have hcap : v.books.reallocCapacity n = if n = 0 then vecMinCapacity else n := by
      simp [Books.reallocCapacity, books, hd]
    rw [hcap] at hcovers
    exact hpos hcovers
  | some d =>
    have hcap : v.books.reallocCapacity n = n :=
      Books.reallocCapacity_of_isSome (by simp [books, hd]) n
    rw [hcap] at hcovers
    exact hpos hcovers

lemma reserveRequest_positive {n : UInt32} (hes : 0 < v.elementSize.toNat)
    (hcovers : v.capacity < n → v.books.Covers n) :
    (if v.capacity < n then vectorReallocRequest v n else .nothing).Positive := by
  split_ifs with hlt
  · have hcap : v.books.reallocCapacity n = n := Books.reallocCapacity_of_lt hlt
    refine reallocRequest_positive hes ?_
    rw [hcap]
    exact hcovers hlt
  · exact trivial

/-- An affordable call does not ask for 0 bytes. -/
lemma request_positive (h : v.Sound) {call : VectorCall} (haff : call.Affordable v) :
    (vectorRequest v call).Positive := by
  have hes := h.elementSize_pos
  have hgrow : v.books.Growable → (if v.count = v.capacity then
      vectorReallocRequest v (v.count * vecExpandFactor) else .nothing).Positive := by
    intro hgrow
    split_ifs with hfull
    · exact reallocRequest_positive hes (hgrow hfull).2
    · exact trivial
  cases call with
  | push value | emplace value | insert index value | insertEmplace index value => exact hgrow haff
  | resize n | reserve n => exact reserveRequest_positive hes haff
  | compact =>
    change (if v.count = 0 then xfree v.data else vectorReallocRequest v v.count).Positive
    split_ifs with hzero
    · exact xfree_positive
    · have hcap : v.books.reallocCapacity v.count = v.count := Books.reallocCapacity_of_ne_zero hzero
      refine reallocRequest_positive hes ?_
      rw [hcap]
      have hle : (v.count.toNat + 1) * v.elementSize.toNat ≤ (v.capacity.toNat + 1) * v.elementSize.toNat :=
        Nat.mul_le_mul_right _ (Nat.succ_le_succ h.count_le)
      have hfits := h.fits
      rw [Nat.mul_comm] at hfits
      exact hle.trans_lt hfits
  | clearCompact => exact xfree_positive
  | _ => exact trivial

/-- A vector with fewer than 2^32 bytes grows without wrapping its count. -/
lemma noWrap_of_affordable (h : v.Sound) {call : VectorCall} (haff : call.Affordable v) : call.NoWrap v := by
  have hgrow : v.books.Growable → v.count = v.capacity → 2 * v.count.toNat < 2 ^ 32 := by
    intro hgrow hfull
    rcases (hgrow hfull).1 with hlt | hmax
    · exact hlt
    · have hle : 1 * (v.capacity.toNat + 1) ≤ v.elementSize.toNat * (v.capacity.toNat + 1) :=
        Nat.mul_le_mul_right _ h.elementSize_pos
      have hfits := h.fits
      change v.count.toNat = _ at hmax
      rw [hfull] at hmax
      omega
  cases call with
  | push value | emplace value | insert index value | insertEmplace index value => exact hgrow haff
  | _ => exact trivial

section OnHeap

variable {σ : Type} {H : HeapApi σ} {inv : σ → BlockMap → Prop}

/-- A call that does not wrap on a vector that owns its buffer. -/
theorem Sound.vectorOnHeap (h : v.Sound) (hH : H.Keeps Grant.addr inv) {call : VectorCall}
    (haff : call.Affordable v) :
    Owns inv (ownedBlock v.data) (vectorOnHeap H v call) fun r F =>
      F = ownedBlock r.2.data ∧ ∃ g, r = vectorCall v (some g) call := by
  refine ((call_describes v call).owns hH (request_positive h haff)).bind ?_
  rintro answer F ⟨rfl, hsome⟩
  refine Owns.pure ⟨rfl, ?_⟩
  by_cases hasks : (vectorRequest v call).Asks
  · obtain ⟨g, rfl⟩ := Option.isSome_iff_exists.mp (hsome hasks)
    exact ⟨g, rfl⟩
  · exact ⟨⟨0, fun _ => 0⟩, call_congr hasks _ _⟩

end OnHeap

lemma pushVector_describes (store : VectorStore) (i j : Nat) :
    (pushVectorRequest (store i) (store j)).Describes (store i).data fun answer =>
      ((vectorPushVector store i j answer).2 i).data := by
  unfold pushVectorRequest
  split_ifs with hes
  · intro answer
    change ownedBlock ((vectorPushVector store i j answer).2 i).data = _
    unfold vectorPushVector
    rw [if_pos hes]
  · refine (reallocIf_describes vecInvalidIndex _ (rfl : ownedBlock (store i).data = _)).congr fun answer => ?_
    unfold vectorPushVector
    rw [if_neg hes]
    dsimp only
    generalize (if (store i).count + (store j).count > (store i).capacity then
      vectorRealloc (store i) vecInvalidIndex ((store i).count + (store j).count) answer
      else (0, store i)) = r
    split_ifs
    · dsimp only
      rw [Function.update_self]
    · dsimp only
      rw [Function.update_self]
      exact ownedBlock_setBytes _ _

lemma pushVector_congr {store : VectorStore} {i j : Nat}
    (h : ¬(pushVectorRequest (store i) (store j)).Asks) (answer answer' : AllocAnswer) :
    vectorPushVector store i j answer = vectorPushVector store i j answer' := by
  unfold pushVectorRequest at h
  unfold vectorPushVector
  by_cases hes : (store i).elementSize ≠ (store j).elementSize
  · rw [if_pos hes, if_pos hes]
  · rw [if_neg hes] at h
    have hroom : ¬(store i).count + (store j).count > (store i).capacity := by
      intro hfull
      dsimp only at h
      rw [if_pos hfull] at h
      exact h (reallocRequest_asks _ _)
    simp only [if_neg hes, if_neg hroom]

theorem Sound.pushVectorOnHeap {σ : Type} {H : HeapApi σ} {inv : σ → BlockMap → Prop}
    {store : VectorStore} {i j : Nat} (h : (store i).Sound) (hH : H.Keeps Grant.addr inv)
    (haff : (StoreCall.pushVector i j).Affordable store) :
    Owns inv (ownedBlock (store i).data) (pushVectorOnHeap H store i j) fun r F =>
      F = ownedBlock r.2.data ∧
        ∃ g, r = ((vectorPushVector store i j (some g)).1, (vectorPushVector store i j (some g)).2 i) := by
  have hpos : (pushVectorRequest (store i) (store j)).Positive := by
    unfold pushVectorRequest
    split_ifs with hes
    · exact trivial
    · exact reserveRequest_positive h.elementSize_pos (haff (not_not.mp hes))
  refine ((pushVector_describes store i j).owns hH hpos).bind ?_
  rintro answer F ⟨rfl, hsome⟩
  refine Owns.pure ⟨rfl, ?_⟩
  by_cases hasks : (pushVectorRequest (store i) (store j)).Asks
  · obtain ⟨g, rfl⟩ := Option.isSome_iff_exists.mp (hsome hasks)
    exact ⟨g, rfl⟩
  · refine ⟨⟨0, fun _ => 0⟩, ?_⟩
    rw [← pushVector_congr hasks answer]
    rfl

/-- `vector_push_vector` between vectors of one kind keeps the books too. -/
lemma pushVector_sound {store : VectorStore} {i j : Nat} (h : (store i).books.Sound)
    (hpos : 0 < (store i).elementSize.toNat) (hes : (store i).elementSize = (store j).elementSize)
    (haff : (StoreCall.pushVector i j).Affordable store) (hwrap : (StoreCall.pushVector i j).NoWrap store)
    (g : Grant) :
    ∃ v, vectorPushVector store i j (some g) = (0, Function.update store i v) ∧ v.books.Sound ∧
      v.elementSize = (store i).elementSize ∧ v.toList = (store i).toList ++ (store j).toList := by
  obtain ⟨v, hpush, hspec⟩ := pushVector_spec (sound_of_books h hpos) hes (hwrap hes) g
  have hv : v.books.Sound ∧ v.elementSize = (store i).elementSize := by
    rcases pushVector_books store i j (some g) hes with hval | ⟨v', hval, hbooks⟩
    · rw [hpush] at hval
      cases congrArg Prod.fst hval
    · have hsame : (Function.update store i v) i = (Function.update store i v') i :=
        congrFun (congrArg Prod.snd (hpush.symm.trans hval)) i
      rw [Function.update_self, Function.update_self] at hsame
      have hsound := (@Books.Sound.reserved _ ((store i).count + (store j).count) h _
        (fun _ => le_rfl) fun hlt => not_lt.mp hlt).2 (haff hes)
      rw [← hbooks, ← hsame] at hsound
      refine ⟨hsound, ?_⟩
      change v.books.elementSize = (store i).books.elementSize
      rw [hsame, hbooks]
      change (Books.reserved _ _).elementSize = _
      unfold Books.reserved
      split_ifs <;> rfl
  obtain ⟨_, hves, happend⟩ := hspec (sound_of_books hv.1 (hv.2 ▸ hpos)).fits
  exact ⟨v, hpush, hv.1, hves, happend⟩

end CsVector

namespace Btree

variable {b : Btree}

lemma ownedBlock_setBytes (b : Btree) (bytes : Bytes) :
    ownedBlock (b.setBytes bytes).data = ownedBlock b.data := by
  unfold setBytes
  cases b.data <;> rfl

lemma realloc_describes (b : Btree) (n : UInt32) : (btreeReallocRequest b n).Describes b.data fun answer =>
    (btreeRealloc b n answer).val.2.data := by
  unfold btreeReallocRequest
  cases hd : b.data with
  | none =>
    refine ⟨rfl, fun g => ?_⟩
    dsimp only
    rw [val_realloc_none hd]
    rfl
  | some d =>
    refine ⟨⟨d, rfl, rfl⟩, fun g => ?_⟩
    dsimp only
    by_cases hgrow : clampCapacity n ≥ b.capacity
    · rw [val_realloc_grow hd hgrow]
      rfl
    · rw [val_realloc_shrink hd hgrow]
      rfl

lemma reallocRequest_asks (b : Btree) (n : UInt32) : (btreeReallocRequest b n).Asks := by
  unfold btreeReallocRequest
  cases b.data <;> exact trivial

lemma grow_describes (b : Btree) :
    (if b.count = b.capacity then btreeReallocRequest b (b.capacity * btreeExpandFactor)
      else .nothing).Describes b.data fun answer => (btreeGrow b answer).val.2.data := by
  unfold btreeGrow
  split_ifs
  · exact realloc_describes b _
  · exact fun _ => rfl

lemma ownedBlock_insertAtLowerBound (b : Btree) (p : Nat) (key : UInt32) (value : List Byte) :
    ownedBlock (CStructures.insertAtLowerBound b p key value).val.data = ownedBlock b.data := by
  have hgap : ownedBlock (b.openGap p key).data = ownedBlock b.data :=
    (ownedBlock_setBytes _ _).trans ((ownedBlock_setBytes _ _).trans (ownedBlock_setBytes _ _))
  rw [val_insertAtLowerBound]
  split_ifs
  · exact (ownedBlock_setBytes _ _).trans hgap
  · exact hgap

lemma ownedBlock_eraseIndex (b : Btree) (idx : UInt32) :
    ownedBlock (btreeEraseIndex b idx).val.2.data = ownedBlock b.data :=
  (ownedBlock_setBytes _ _).trans (ownedBlock_setBytes _ _)

lemma insertNew_describes (b : Btree) (key : UInt32) (value : List Byte) :
    (if b.count = b.capacity then btreeReallocRequest b (b.capacity * btreeExpandFactor)
      else .nothing).Describes b.data fun answer => (btreeInsertNew b key value answer).val.2.data := by
  refine (grow_describes b).congr fun answer => ?_
  rcases grow_cases b answer with ⟨grown, hgrow⟩ | hgrow
  · rw [insertNew_grown hgrow, hgrow]
    split_ifs
    · rfl
    · exact ownedBlock_insertAtLowerBound _ _ _ _
  · rw [insertNew_refused hgrow, hgrow]

/-- The request that `btreeRequest` gives for a call is the one that its function makes. -/
theorem call_describes (b : Btree) (call : BtreeCall) : (btreeRequest b call).Describes b.data fun answer =>
    (btreeCall b answer call).val.2.data := by
  cases call with
  | insertNew key value => exact insertNew_describes b key value
  | insertOrGet key value =>
    refine (insertNew_describes b key value).congr fun answer => ?_
    rw [← insertOrGet_btree]
    rfl
  | setExisting key value =>
    intro _
    change ownedBlock (btreeSetExisting b key value).val.2.data = _
    unfold btreeSetExisting
    split_ifs
    · rfl
    · simp only [Logged.val_bind]
      cases (btreeFind b key).val with
      | none => rfl
      | some found => exact ownedBlock_setBytes _ _
  | erase key =>
    intro _
    change ownedBlock (btreeErase b key).val.2.data = _
    unfold btreeErase
    simp only [Logged.val_bind, Logged.val_ite]
    split_ifs
    · exact ownedBlock_eraseIndex _ _
    · rfl
  | eraseValue value =>
    intro _
    change ownedBlock (btreeEraseValue b value).val.2.data = _
    rw [val_eraseValue]
    split_ifs
    · rfl
    · exact ownedBlock_eraseIndex _ _
  | reserve n =>
    change (if b.capacity < n then btreeReallocRequest b n else .nothing).Describes b.data
      fun answer => (btreeReserve b n answer).val.2.data
    unfold btreeReserve
    split_ifs
    · exact realloc_describes b n
    · exact fun _ => rfl
  | compact =>
    change (if b.count = 0 then xfree b.data else btreeReallocRequest b b.count).Describes b.data
      fun answer => (btreeCompact b answer).val.data
    unfold btreeCompact
    split_ifs
    · exact xfree_describes fun _ => rfl
    · exact realloc_describes b _
  | _ => exact fun _ => rfl

lemma call_congr {call : BtreeCall} (h : ¬(btreeRequest b call).Asks) (answer answer' : AllocAnswer) :
    btreeCall b answer call = btreeCall b answer' call := by
  have hroom : ∀ {full : Prop} [Decidable full] {n},
      ¬(if full then btreeReallocRequest b n else .nothing).Asks → ¬full := by
    intro full _ n hasks hfull
    rw [if_pos hfull] at hasks
    exact hasks (reallocRequest_asks b n)
  cases call with
  | insertNew key value => simp only [btreeCall, btreeInsertNew, grow_of_room (hroom h) answer answer']
  | insertOrGet key value => simp only [btreeCall, btreeInsertOrGet, grow_of_room (hroom h) answer answer']
  | reserve n => simp only [btreeCall, btreeReserve, if_neg (hroom h)]
  | compact =>
    have hzero : b.count = 0 := by
      by_contra hne
      refine h ?_
      change (if b.count = 0 then xfree b.data else btreeReallocRequest b b.count).Asks
      rw [if_neg hne]
      exact reallocRequest_asks b _
    simp only [btreeCall, btreeCompact, if_pos hzero]
  | _ => rfl

/-- A 32-bit word times a number that is at most 3 beyond 2^32 is not 2^64. -/
lemma mul_ne_of_lt {c d : Nat} (hc : c < 2 ^ 32) (hd : d < 2 ^ 32 + 4) : c * d ≠ 2 ^ 64 := by
  intro h
  obtain ⟨f, hf⟩ : ∃ f, c + f = 2 ^ 32 := ⟨2 ^ 32 - c, by omega⟩
  have hlarge : 2 ^ 32 < d := by
    by_contra hle
    have hmul : c * d ≤ c * 2 ^ 32 := Nat.mul_le_mul_left c (by omega)
    omega
  obtain ⟨e, rfl⟩ := Nat.exists_eq_add_of_lt hlarge
  have hsplit : c * (e + 1) = 2 ^ 32 * f := by
    have hexp : c * (2 ^ 32 + e + 1) = c * 2 ^ 32 + c * (e + 1) := by
      rw [add_assoc, Nat.mul_add]
    omega
  have he : e = 0 ∨ e = 1 ∨ e = 2 := by omega
  rcases he with rfl | rfl | rfl <;> omega

/-- The 64-bit product of a capacity and the size of an entry is never 0. -/
lemma bufferSize_pos (b : Btree) {cap : UInt32} (hcap : 0 < cap.toNat) : 0 < b.bufferSize cap := by
  have hc := cap.toNat_lt
  have hv := b.valueSize.toNat_lt
  have hentry : (4 + b.valueSize.toUInt64).toNat = 4 + b.valueSize.toNat := by
    rw [UInt64.toNat_add, UInt32.toNat_toUInt64]
    change (4 + b.valueSize.toNat) % 2 ^ 64 = _
    omega
  have hne := mul_ne_of_lt hc (show 4 + b.valueSize.toNat < 2 ^ 32 + 4 by omega)
  have hpos : 0 < cap.toNat * (4 + b.valueSize.toNat) := Nat.mul_pos hcap (by omega)
  have hle : cap.toNat * (4 + b.valueSize.toNat) ≤ 2 ^ 32 * (2 ^ 32 + 4) :=
    Nat.mul_le_mul (by omega) (by omega)
  rw [bufferSize, UInt64.toNat_mul, hentry, UInt32.toNat_toUInt64]
  omega

lemma request_positive (b : Btree) (call : BtreeCall) : (btreeRequest b call).Positive := by
  have hrealloc : ∀ n, (btreeReallocRequest b n).Positive := by
    intro n
    have hpos : 0 < b.bufferSize (clampCapacity n) := by
      apply bufferSize_pos
      have hmin := clampCapacity_toNat n
      omega
    have hlt : b.bufferSize (clampCapacity n) < 2 ^ 64 := UInt64.toNat_lt _
    have hword : 0 < UInt64.ofNat (b.bufferSize (clampCapacity n)) := by
      rw [UInt64.lt_iff_toNat_lt, UInt64.toNat_ofNat', Nat.mod_eq_of_lt hlt]
      exact hpos
    unfold btreeReallocRequest
    cases b.data <;> exact hword
  have hrealloc' : ∀ {full : Prop} [Decidable full] {n},
      (if full then btreeReallocRequest b n else .nothing).Positive := by
    intro full _ n
    split_ifs
    · exact hrealloc n
    · exact trivial
  cases call with
  | insertNew key value | insertOrGet key value | reserve n => exact hrealloc'
  | compact =>
    change (if b.count = 0 then xfree b.data else btreeReallocRequest b b.count).Positive
    split_ifs
    · exact xfree_positive
    · exact hrealloc _
  | _ => exact trivial

/-- A call on a btree that owns its buffer. -/
theorem onHeap_owns {σ : Type} {H : HeapApi σ} {inv : σ → BlockMap → Prop} (hH : H.Keeps Grant.addr inv)
    (b : Btree) (call : BtreeCall) :
    Owns inv (ownedBlock b.data) (btreeOnHeap H b call) fun r F =>
      F = ownedBlock r.2.data ∧ ∃ g, r = (btreeCall b (some g) call).val := by
  refine ((call_describes b call).owns hH (request_positive b call)).bind ?_
  rintro answer F ⟨rfl, hsome⟩
  refine Owns.pure ⟨rfl, ?_⟩
  by_cases hasks : (btreeRequest b call).Asks
  · obtain ⟨g, rfl⟩ := Option.isSome_iff_exists.mp (hsome hasks)
    exact ⟨g, rfl⟩
  · rw [call_congr hasks answer (some ⟨0, fun _ => 0⟩)]
    exact ⟨_, rfl⟩

end Btree

end CStructures
