import CStructures.Proofs.VectorLayout

/-!
# Editing the vector

What each operation does to the sequence in the buffer.
-/

namespace CStructures
open Lib

namespace CsVector

variable {v v' : CsVector} {n : UInt32} {value : List Byte}

def reallocCapacity (v : CsVector) (n : UInt32) : UInt32 :=
  if v.data.isNone ∧ n = 0 then vecMinCapacity else n

def withBuffer (v : CsVector) (d : Block) (cap : UInt32) : CsVector :=
  { v with data := some d, capacity := cap }

def refused (v : CsVector) (n : UInt32) : CsVector := if v.data.isSome then v.refuseBuffer n else v

lemma refused_elementSize (v : CsVector) (n : UInt32) : (v.refused n).elementSize = v.elementSize := by
  unfold refused refuseBuffer
  split_ifs <;> rfl

/-- Either there is no memory, or the vector has a buffer of the size that was requested. -/
theorem realloc_cases (v : CsVector) (index : Int64) (n : UInt32) (answer : AllocAnswer) :
    answer = none ∧ vectorRealloc v index n answer = (-1, v.refused n) ∨
      answer.isSome ∧ ∃ d, vectorRealloc v index n answer = (0, v.withBuffer d (v.reallocCapacity n)) ∧
        d.size = v.requestSize (v.reallocCapacity n) := by
  unfold vectorRealloc reallocCapacity refused
  cases answer with
  | none => cases v.data <;> exact Or.inl ⟨rfl, rfl⟩
  | some g =>
    refine Or.inr ⟨rfl, ?_⟩
    cases hd : v.data with
    | none =>
      simp only [Option.isNone_none, true_and]
      exact ⟨_, rfl, rfl⟩
    | some d =>
      simp only [Option.isNone_some, Bool.false_eq_true, false_and, if_false]
      split_ifs <;> exact ⟨_, rfl, rfl⟩

def resized (v : CsVector) (d : Block) (n : UInt32) (g : Grant) : CsVector :=
  { v with data := some (reallocBlock d (v.requestSize n) g) }

lemma realloc_some {d : Block} (hd : v.data = some d) (g : Grant) :
    vectorRealloc v vecInvalidIndex n (some g) = (0, { v.resized d n g with capacity := n }) := by
  unfold vectorRealloc
  simp only [hd, ne_eq, not_true_eq_false, if_false]
  rfl

lemma elems_resized {d : Block} (hd : v.data = some d) {g : Grant} {i : Nat}
    (hold : v.elementSize.toNat * i + v.elementSize.toNat ≤ d.size)
    (hnew : v.elementSize.toNat * i + v.elementSize.toNat ≤ v.requestSize n) :
    (v.resized d n g).elems i = v.elems i := by
  have hbytes : v.bytes = d.bytes := by simp only [bytes, hd]
  rw [elems, elems, hbytes]
  change slice (reallocBlock d _ g).bytes (0 + v.elementSize.toNat * i) v.elementSize.toNat =
    slice d.bytes (0 + v.elementSize.toNat * i) v.elementSize.toNat
  exact slice_reallocBlock (by omega) (by omega)

lemma requestSize_eq (hpos : 0 < v.elementSize.toNat)
    (hfits : v.elementSize.toNat * (n.toNat + 1) < 2 ^ 32) :
    v.requestSize n = v.elementSize.toNat * (n.toNat + 1) := by
  have hle : n.toNat + 1 ≤ v.elementSize.toNat * (n.toNat + 1) := Nat.le_mul_of_pos_left _ hpos
  have hsucc : (n + 1).toNat = n.toNat + 1 := by
    rw [UInt32.toNat_add]
    change (n.toNat + 1) % 2 ^ 32 = _
    omega
  rw [requestSize, UInt32.toNat_mul, hsucc, Nat.mul_comm]
  exact Nat.mod_eq_of_lt hfits

lemma Sound.elems_resized (h : v.Sound) {d : Block} (hd : v.data = some d) (hn : v.count.toNat ≤ n.toNat)
    (hfits : v.elementSize.toNat * (n.toNat + 1) < 2 ^ 32) (g : Grant) {i : Nat}
    (hi : i < v.count.toNat) : (v.resized d n g).elems i = v.elems i := by
  have hcount := h.count_le
  have hold : v.elementSize.toNat * i + v.elementSize.toNat ≤
      v.elementSize.toNat * (v.capacity.toNat + 1) := stride_le _ (by omega)
  have hnew : v.elementSize.toNat * i + v.elementSize.toNat ≤
      v.elementSize.toNat * (n.toNat + 1) := stride_le _ (by omega)
  exact CsVector.elems_resized hd (hold.trans (h.buffer d hd))
    (hnew.trans (requestSize_eq h.elementSize_pos hfits).ge)

lemma Sound.withBuffer (h : v.Sound) {d : Block} {cap : UInt32} (hcount : v.count.toNat ≤ cap.toNat)
    (hcap : 0 < cap.toNat) (hfits : v.elementSize.toNat * (cap.toNat + 1) < 2 ^ 32)
    (hsize : d.size = v.requestSize cap) : (v.withBuffer d cap).Sound where
  elementSize_pos := h.elementSize_pos
  count_le := hcount
  fits := hfits
  buffer := by
    intro x hx
    rw [Option.mem_def, CsVector.withBuffer, Option.some.injEq] at hx
    rw [← hx, hsize]
    exact (requestSize_eq h.elementSize_pos hfits).ge
  unallocated := by
    constructor
    · intro hnone
      cases hnone
    · intro hzero
      change cap = 0 at hzero
      rw [hzero] at hcap
      exact absurd hcap (by decide)

theorem realloc_spec (h : v.Sound) (hn : v.count.toNat ≤ n.toNat)
    (hpos : v.data.isSome → 0 < n.toNat) (g : Grant) :
    let r := vectorRealloc v vecInvalidIndex n (some g)
    r.1 = 0 ∧ r.2.capacity = v.reallocCapacity n ∧ r.2.count = v.count ∧
      r.2.elementSize = v.elementSize ∧
      (v.elementSize.toNat * (r.2.capacity.toNat + 1) < 2 ^ 32 →
        r.2.Sound ∧ ∀ i < v.count.toNat, r.2.elems i = v.elems i) := by
  rcases realloc_cases v vecInvalidIndex n (some g) with ⟨hnone, _⟩ | ⟨_, d', hval, hsize⟩
  · cases hnone
  have hcap : v.count.toNat ≤ (v.reallocCapacity n).toNat ∧ 0 < (v.reallocCapacity n).toNat := by
    unfold reallocCapacity
    split_ifs with hzero
    · rw [hzero.2] at hn
      exact ⟨hn.trans (by decide), by decide⟩
    · refine ⟨hn, ?_⟩
      cases hd : v.data with
      | some d => exact hpos (by rw [hd]; rfl)
      | none =>
        have hne : n ≠ 0 := fun h0 => hzero ⟨by rw [hd]; rfl, h0⟩
        have := UInt32.toNat_inj.not.mpr hne
        change n.toNat ≠ 0 at this
        omega
  refine ⟨by rw [hval], by rw [hval]; rfl, by rw [hval]; rfl, by rw [hval]; rfl, fun hfits => ?_⟩
  have hfits' : v.elementSize.toNat * ((v.reallocCapacity n).toNat + 1) < 2 ^ 32 := by
    rw [hval] at hfits
    exact hfits
  refine ⟨by rw [hval]; exact h.withBuffer hcap.1 hcap.2 hfits' hsize, ?_⟩
  intro i hi
  have hcount := h.count_le
  cases hd : v.data with
  | none =>
    rw [h.unallocated.mp hd] at hcount
    exact absurd (Nat.lt_of_lt_of_le hi hcount) (Nat.not_lt_zero i)
  | some d =>
    have hcapn : v.reallocCapacity n = n := by simp [reallocCapacity, hd]
    rw [hcapn] at hfits'
    rw [realloc_some hd]
    exact h.elems_resized hd hn hfits' g hi

/-- The elements from position `k` on have moved up by one. -/
def MakesRoom (v v' : CsVector) (k : Nat) : Prop :=
  ∀ i < v.count.toNat + 1, i ≠ k → v'.elems i = if i < k then v.elems i else v.elems (i - 1)

/-- An element has been emplaced at position `k`, and `p` points to it. -/
structure EmplacedAt (v v' : CsVector) (p : UInt64) (k : Nat) : Prop where
  sound : v'.Sound
  count : v'.count.toNat = v.count.toNat + 1
  elementSize : v'.elementSize = v.elementSize
  pointsTo : v'.PointsTo p k
  below : k ≤ v.count.toNat
  elems : v.MakesRoom v' k

lemma EmplacedAt.isSome {p : UInt64} {k : Nat} (h : v.EmplacedAt v' p k) : v'.data.isSome := by
  have := h.sound.count_le
  have := h.count
  exact h.sound.isSome (by omega)

/-- Writing the emplaced element completes the insertion. -/
theorem EmplacedAt.write {p : UInt64} {k : Nat} (h : v.EmplacedAt v' p k)
    (hv : value.length = v.elementSize.toNat) :
    (v'.write p value).Sound ∧ (v'.write p value).toList = v.toList.insertIdx k value ∧
      (v'.write p value).deref p = value := by
  have hv' : value.length = v'.elementSize.toNat := by rw [hv, h.elementSize]
  have hwrite := elems_write h.isSome h.pointsTo hv'
  refine ⟨h.sound.of_sameBuffer rfl rfl setBytes_size h.sound.count_le, ?_, ?_⟩
  · rw [toList, toList, ← tabulate_insertAt h.below]
    change tabulate _ v'.count.toNat = _
    rw [h.count]
    apply tabulate_congr
    intro i hi
    rw [hwrite, insertAt]
    by_cases hik : i = k
    · rw [if_pos hik, if_neg (by omega), if_pos hik]
    · rw [if_neg hik, h.elems i hi hik, if_neg hik]
  · have hp : (v'.write p value).PointsTo p k := h.pointsTo.congr rfl
    rw [hp.deref, hwrite, if_pos rfl]

lemma toNat_double (h : 2 * v.count.toNat < 2 ^ 32) :
    (v.count * vecExpandFactor).toNat = 2 * v.count.toNat := by
  rw [UInt32.toNat_mul]
  change v.count.toNat * 2 % 2 ^ 32 = _
  omega

/-- A full vector with a buffer has an element. -/
lemma Sound.count_pos_of_full (h : v.Sound) (hfull : v.count = v.capacity) (hd : v.data.isSome) :
    0 < v.count.toNat := by
  have hne : v.capacity ≠ 0 := by
    rw [Ne, ← h.unallocated]
    exact Option.isSome_iff_ne_none.mp hd
  have := UInt32.toNat_inj.not.mpr hne
  change v.capacity.toNat ≠ 0 at this
  rw [hfull]
  omega

lemma Sound.lt_reallocCapacity_double (h : v.Sound) (hfull : v.count = v.capacity)
    (hwrap : 2 * v.count.toNat < 2 ^ 32) :
    v.count.toNat < (v.reallocCapacity (v.count * vecExpandFactor)).toNat := by
  have hdouble := toNat_double hwrap
  unfold reallocCapacity
  split_ifs with hzero
  · have hz : (v.count * vecExpandFactor).toNat = 0 := by rw [hzero.2]; rfl
    change _ < 32
    omega
  · cases hd : v.data with
    | some d =>
      have := h.count_pos_of_full hfull (by rw [hd]; rfl)
      omega
    | none =>
      have hne : v.count * vecExpandFactor ≠ 0 := fun h0 => hzero ⟨by rw [hd]; rfl, h0⟩
      have := UInt32.toNat_inj.not.mpr hne
      change (v.count * vecExpandFactor).toNat ≠ 0 at this
      omega

lemma Sound.succ_count (h : v'.Sound) (hcount : v'.count = v.count)
    (hroom : v.count.toNat < v'.capacity.toNat) :
    ({ v' with count := v'.count + 1 } : CsVector).Sound ∧
      ({ v' with count := v'.count + 1 } : CsVector).count.toNat = v.count.toNat + 1 := by
  have hsucc : (v'.count + 1).toNat = v.count.toNat + 1 := by
    rw [hcount]
    exact toNat_succ hroom
  exact ⟨h.of_sameBuffer rfl rfl rfl (by change (v'.count + 1).toNat ≤ _; omega), hsucc⟩

theorem emplace_spec (h : v.Sound) (hwrap : v.count = v.capacity → 2 * v.count.toNat < 2 ^ 32) (g : Grant) :
    let r := vectorEmplace v (some g)
    v.elementSize.toNat * (r.2.capacity.toNat + 1) < 2 ^ 32 →
      ∃ p, r.1 = some p ∧ v.EmplacedAt r.2 p v.count.toNat := by
  have hgrown : ∃ v', (if v.count = v.capacity then
      vectorRealloc v vecInvalidIndex (v.count * vecExpandFactor) (some g) else (0, v)) = (0, v') ∧
      v'.count = v.count ∧ v'.elementSize = v.elementSize ∧
      (v.elementSize.toNat * (v'.capacity.toNat + 1) < 2 ^ 32 → v'.Sound ∧
        v.count.toNat < v'.capacity.toNat ∧ ∀ i < v.count.toNat, v'.elems i = v.elems i) := by
    split_ifs with hfull
    · have hdouble := toNat_double (hwrap hfull)
      obtain ⟨hok, hcap, hcount, hes, hspec⟩ := @realloc_spec v (v.count * vecExpandFactor) h (by omega)
        (fun hd => by have := h.count_pos_of_full hfull hd; omega) g
      refine ⟨_, Prod.ext hok rfl, hcount, hes, fun hfits => ?_⟩
      obtain ⟨hsound, helems⟩ := hspec hfits
      exact ⟨hsound, by rw [hcap]; exact h.lt_reallocCapacity_double hfull (hwrap hfull), helems⟩
    · have hne := UInt32.toNat_inj.not.mpr hfull
      have hle := h.count_le
      exact ⟨v, rfl, rfl, rfl, fun _ => ⟨h, by omega, fun _ _ => rfl⟩⟩
  obtain ⟨v', hval, hcount, hes, hspec⟩ := hgrown
  unfold vectorEmplace
  rw [hval]
  dsimp only
  rw [if_neg (by simp)]
  intro hfits
  obtain ⟨hsound, hroom, helems⟩ := hspec hfits
  obtain ⟨hsound', hcount'⟩ := hsound.succ_count hcount hroom
  refine ⟨_, rfl, hsound', hcount', hes, ?_, le_rfl, ?_⟩
  · rw [← hcount]
    have hoff := hsound.offset_lt (show v'.count.toNat ≤ v'.capacity.toNat + 1 by rw [hcount]; omega)
    exact (pointsTo_mul hoff).congr rfl
  · intro i hi hne
    rw [if_pos (by omega)]
    exact helems i (by omega)

/-- The shift of `vector_realloc` moves the upper elements of a full vector. -/
lemma realloc_makesRoom (h : v.Sound) (hfull : v.count = v.capacity) {d : Block}
    (hd : v.data = some d) {index : Int64} (h0 : 0 ≤ index) (hle : index ≤ toIdx v.count)
    (hn : v.count.toNat < n.toNat) (hfits : v.elementSize.toNat * (n.toNat + 1) < 2 ^ 32) (g : Grant) :
    v.MakesRoom (vectorRealloc v index n (some g)).2 (position index) := by
  have hk := position_le h0 hle
  have hkcap : position index ≤ v.capacity.toNat := hfull ▸ hk
  have hvalid : index ≠ vecInvalidIndex := by
    rintro rfl
    exact absurd h0 (by decide)
  set v1 := v.resized d n g with hv1
  have hd1 : v1.data.isSome := rfl
  have hnew : v1.PointsTo ((index + 1) * toIdx v1.elementSize).toUInt64 (position index + 1) := by
    have hsucc : position (index + 1) = position index + 1 := by
      rw [position, Int64.toUInt64_add]
      refine toNat_add_of_lt ?_
      change position index + 1 < 2 ^ 64
      have := v.count.toNat_lt
      omega
    rw [← hsucc]
    exact pointsTo_index (h.offset_lt (by omega))
  have hold : v1.PointsTo ((index + 0) * toIdx v1.elementSize).toUInt64 (position index) := by
    rw [Int64.add_zero]
    exact pointsTo_index (h.offset_lt (by omega))
  have hupper : (toIdx v1.capacity - index).toUInt64.toUInt32.toNat = v.capacity.toNat - position index := by
    have hcap := v.capacity.toNat_lt
    have hsub : (v.capacity.toUInt64 - index.toUInt64).toNat = v.capacity.toNat - position index := by
      rw [UInt64.toNat_sub_of_le _ _ (UInt64.le_iff_toNat_le.mpr ?_), UInt32.toNat_toUInt64, position]
      rw [UInt32.toNat_toUInt64]
      exact hkcap
    rw [UInt64.toNat_toUInt32, Int64.toUInt64_sub, toUInt64_toIdx]
    change (v.capacity.toUInt64 - index.toUInt64).toNat % 2 ^ 32 = _
    rw [hsub]
    omega
  have hlen : ((toIdx v1.capacity - index).toUInt64.toUInt32 * v1.elementSize).toNat =
      v1.elementSize.toNat * (v.capacity.toNat - position index) := by
    have hoff := h.offset_lt (show v.capacity.toNat - position index ≤ v.capacity.toNat + 1 by omega)
    rw [UInt32.mul_comm, toNat_mul_of_lt (by rw [hupper]; exact hoff), hupper]
  have hval : (vectorRealloc v index n (some g)).2 =
      { v1.move ((index + 1) * toIdx v1.elementSize).toUInt64 ((index + 0) * toIdx v1.elementSize).toUInt64
          ((toIdx v1.capacity - index).toUInt64.toUInt32 * v1.elementSize) with capacity := n } := by
    unfold vectorRealloc
    simp only [hd]
    rw [if_pos hvalid]
    rfl
  have hresized : ∀ i < v.count.toNat, v1.elems i = v.elems i :=
    fun i hi => h.elems_resized hd hn.le hfits g hi
  intro i hi hik
  rw [hval]
  change (v1.move _ _ _).elems i = _
  rw [elems_move hd1 hnew hold hlen, ← hfull]
  split_ifs with hin hlt hlt
  · omega
  · rw [hresized _ (by omega)]
    congr 1
    omega
  · exact hresized i (by omega)
  · omega

/-- The shift of `vector_insert_emplace` in a buffer with room. -/
lemma shift_makesRoom (h : v.Sound) (hroom : v.count.toNat < v.capacity.toNat) {index : Int64}
    (h0 : 0 ≤ index) (hle : index ≤ toIdx v.count) :
    let offset := (toIdx v.elementSize * index).toUInt64
    v.MakesRoom (v.move (offset + v.elementSize.toUInt64) offset
      (v.count * v.elementSize - offset.toUInt32)) (position index) := by
  have hk := position_le h0 hle
  have hoff := h.offset_lt (show position index ≤ v.capacity.toNat + 1 by omega)
  have htotal := h.offset_lt (show v.count.toNat ≤ v.capacity.toNat + 1 by omega)
  have hmul := Nat.mul_le_mul_left v.elementSize.toNat hk
  intro offset
  have hsrc : v.PointsTo offset (position index) := by
    rw [show offset = (index * toIdx v.elementSize).toUInt64 by rw [Int64.mul_comm]]
    exact pointsTo_index hoff
  have hoff32 : offset.toUInt32.toNat = v.elementSize.toNat * position index := by
    rw [UInt64.toNat_toUInt32, hsrc.offset]
    exact Nat.mod_eq_of_lt hoff
  have htotal' : (v.count * v.elementSize).toNat = v.elementSize.toNat * v.count.toNat := by
    rw [UInt32.mul_comm, toNat_mul_of_lt htotal]
  have hlen : (v.count * v.elementSize - offset.toUInt32).toNat =
      v.elementSize.toNat * (v.count.toNat - position index) := by
    rw [toNat_sub_of_le (by omega), hoff32, htotal', Nat.mul_sub]
  intro i hi hik
  rw [elems_move (h.isSome (by omega)) (hsrc.succ hoff) hsrc hlen]
  split_ifs with hin hlt hlt
  · omega
  · congr 1
    omega
  · rfl
  · omega

/-- `vector_insert_emplace` makes room in either way. -/
theorem insertEmplace_spec (h : v.Sound) (hwrap : v.count = v.capacity → 2 * v.count.toNat < 2 ^ 32)
    {index : Int64} (h0 : 0 ≤ index) (hle : index ≤ toIdx v.count) (g : Grant) :
    let r := vectorInsertEmplace v index (some g)
    v.elementSize.toNat * (r.2.capacity.toNat + 1) < 2 ^ 32 →
      ∃ p, r.1 = some p ∧ v.EmplacedAt r.2 p (position index) := by
  have hk := position_le h0 hle
  have hshifted : ∃ v', (if v.count = v.capacity then
      vectorRealloc v index (v.count * vecExpandFactor) (some g)
      else (0, v.move ((toIdx v.elementSize * index).toUInt64 + v.elementSize.toUInt64)
        (toIdx v.elementSize * index).toUInt64
        (v.count * v.elementSize - (toIdx v.elementSize * index).toUInt64.toUInt32))) = (0, v') ∧
      v'.count = v.count ∧ v'.elementSize = v.elementSize ∧
      (v.elementSize.toNat * (v'.capacity.toNat + 1) < 2 ^ 32 → v'.Sound ∧
        v.count.toNat < v'.capacity.toNat ∧ v.MakesRoom v' (position index)) := by
    split_ifs with hfull
    · rcases realloc_cases v index (v.count * vecExpandFactor) (some g) with ⟨hnone, _⟩ | ⟨_, d', hval, hsize⟩
      · cases hnone
      have hdouble := toNat_double (hwrap hfull)
      have hroom := h.lt_reallocCapacity_double hfull (hwrap hfull)
      refine ⟨_, hval, rfl, rfl, fun hfits => ⟨h.withBuffer hroom.le (by omega) hfits hsize, hroom, ?_⟩⟩
      cases hd : v.data with
      | none =>
        have hcap := h.unallocated.mp hd
        have hzero : v.count.toNat = 0 := by
          rw [hfull, hcap]
          rfl
        intro i hi hik
        omega
      | some d =>
        have hcapn : v.reallocCapacity (v.count * vecExpandFactor) = v.count * vecExpandFactor := by
          simp [reallocCapacity, hd]
        rw [hcapn] at hroom
        have hfits' : v.elementSize.toNat * ((v.count * vecExpandFactor).toNat + 1) < 2 ^ 32 := by
          rw [← hcapn]
          exact hfits
        have hmakes := realloc_makesRoom h hfull hd h0 hle hroom hfits' g
        rw [hval] at hmakes
        exact hmakes
    · have hne := UInt32.toNat_inj.not.mpr hfull
      have hcount := h.count_le
      have hroom : v.count.toNat < v.capacity.toNat := by omega
      exact ⟨_, rfl, rfl, rfl, fun _ => ⟨h.of_sameBuffer rfl rfl setBytes_size hcount, hroom,
        shift_makesRoom h hroom h0 hle⟩⟩
  obtain ⟨v', hval, hcount, hes, hspec⟩ := hshifted
  unfold vectorInsertEmplace
  dsimp only
  rw [hval]
  dsimp only
  rw [if_neg (by simp)]
  intro hfits
  obtain ⟨hsound, hroom, hmakes⟩ := hspec hfits
  obtain ⟨hsound', hcount'⟩ := hsound.succ_count hcount hroom
  refine ⟨_, rfl, hsound', hcount', hes, ?_, hk, hmakes⟩
  exact (pointsTo_index (hsound.offset_lt (by omega))).congr rfl

/-- The element at position `k` has been erased. -/
structure ErasedAt (v v' : CsVector) (k : Nat) : Prop where
  sound : v'.Sound
  count : v'.count.toNat + 1 = v.count.toNat
  elementSize : v'.elementSize = v.elementSize
  position : k < v.count.toNat
  elems : ∀ i < v'.count.toNat, v'.elems i = eraseAt v.elems k i

lemma ErasedAt.toList {k : Nat} (h : v.ErasedAt v' k) : v'.toList = v.toList.eraseIdx k := by
  have hk := h.position
  rw [CsVector.toList, CsVector.toList, ← h.count, ← tabulate_eraseAt (by rw [h.count]; exact hk)]
  exact tabulate_congr h.elems

lemma Sound.pred_count (h : v.Sound) (hpos : 0 < v.count.toNat) (hcap : v'.capacity = v.capacity)
    (hes : v'.elementSize = v.elementSize) (hsize : v'.data.map Block.size = v.data.map Block.size)
    (hcount : v'.count = v.count) :
    ({ v' with count := v'.count - 1 } : CsVector).Sound ∧
      ({ v' with count := v'.count - 1 } : CsVector).count.toNat + 1 = v.count.toNat := by
  have hle := h.count_le
  have hpred : (v'.count - 1).toNat = v.count.toNat - 1 := by
    rw [hcount]
    exact toNat_pred hpos
  exact ⟨h.of_sameBuffer hcap hes hsize (by change (v'.count - 1).toNat ≤ _; omega),
    by change (v'.count - 1).toNat + 1 = _; omega⟩

lemma toNat_ne_zero {a : UInt32} : a ≠ 0 ↔ 0 < a.toNat := by
  rw [Ne, ← UInt32.toNat_inj]
  change ¬a.toNat = 0 ↔ _
  omega

theorem pop_spec (h : v.Sound) (hpos : 0 < v.count.toNat) :
    v.ErasedAt (vectorPop v).2 (v.count.toNat - 1) ∧
      (vectorPop v).1.map (vectorPop v).2.deref = some (v.elems (v.count.toNat - 1)) := by
  obtain ⟨hsound, hcount⟩ := h.pred_count hpos rfl rfl rfl rfl
  have hpred : (v.count - 1).toNat = v.count.toNat - 1 := toNat_pred hpos
  have hle := h.count_le
  unfold vectorPop
  rw [if_neg (toNat_ne_zero.mpr hpos)]
  refine ⟨⟨hsound, hcount, rfl, by omega, fun i hi => ?_⟩, ?_⟩
  · rw [eraseAt_of_lt (by change i < (v.count - 1).toNat at hi; omega)]
    rfl
  · have hp : v.PointsTo (v.elementSize * (v.count - 1)).toUInt64 (v.count - 1).toNat :=
      pointsTo_mul (h.offset_lt (by omega))
    rw [hpred] at hp
    exact congrArg some hp.deref

theorem back_spec (h : v.Sound) (hpos : 0 < v.count.toNat) :
    (vectorBack v).map v.deref = some (v.elems (v.count.toNat - 1)) := by
  have hpred : (v.count - 1).toNat = v.count.toNat - 1 := toNat_pred hpos
  have hle := h.count_le
  have hp : v.PointsTo (v.elementSize * (v.count - 1)).toUInt64 (v.count - 1).toNat :=
    pointsTo_mul (h.offset_lt (by omega))
  rw [hpred] at hp
  unfold vectorBack
  rw [if_neg (toNat_ne_zero.mpr hpos)]
  exact congrArg some hp.deref

/-- The elements behind position `k` move down by one. -/
lemma move_erasedAt (h : v.Sound) {dst src : UInt64} {len : UInt32} {k : Nat}
    (hk : k < v.count.toNat) (hdst : v.PointsTo dst k) (hsrc : v.PointsTo src (k + 1))
    (hlen : len.toNat = v.elementSize.toNat * (v.count.toNat - 1 - k)) :
    v.ErasedAt { v.move dst src len with count := (v.move dst src len).count - 1 } k := by
  have hle := h.count_le
  obtain ⟨hsound, hcount⟩ := @Sound.pred_count v (v.move dst src len) h (by omega) rfl rfl setBytes_size rfl
  refine ⟨hsound, hcount, rfl, hk, fun i hi => ?_⟩
  have hcount' : (v.count - 1).toNat + 1 = v.count.toNat := hcount
  change i < (v.count - 1).toNat at hi
  change (v.move dst src len).elems i = _
  rw [elems_move (h.isSome (by omega)) hdst hsrc hlen]
  exact eraseAt_of_moved (by omega)

theorem eraseIndex_spec (h : v.Sound) {index : Int64} (h0 : 0 ≤ index) (hlt : index < toIdx v.count) :
    v.ErasedAt (vectorEraseIndex v index) (position index) := by
  have hk := position_lt h0 hlt
  have hle := h.count_le
  have hpred : (v.count - 1).toNat = v.count.toNat - 1 := toNat_pred (by omega)
  unfold vectorEraseIndex
  split_ifs with hlast
  · have hpos : position index = v.count.toNat - 1 := by
      rw [hlast, position_toIdx, hpred]
    rw [hpos]
    exact (pop_spec h (by omega)).1
  · have hne : position index ≠ v.count.toNat - 1 := by
      rw [← hpred, ← position_toIdx, Ne, position_inj]
      exact hlast
    have hoff := h.offset_lt (show position index ≤ v.capacity.toNat + 1 by omega)
    have htotal := h.offset_lt (show v.count.toNat ≤ v.capacity.toNat + 1 by omega)
    have hdst : v.PointsTo (toIdx v.elementSize * index).toUInt64 (position index) := by
      rw [Int64.mul_comm]
      exact pointsTo_index hoff
    have hoff32 : (toIdx v.elementSize * index).toUInt64.toUInt32.toNat =
        v.elementSize.toNat * position index := by
      rw [UInt64.toNat_toUInt32, hdst.offset]
      exact Nat.mod_eq_of_lt hoff
    have htotal' : (v.elementSize * v.count).toNat = v.elementSize.toNat * v.count.toNat :=
      toNat_mul_of_lt htotal
    have hstride := stride_le v.elementSize.toNat hk
    have hrest : (v.elementSize * v.count - (toIdx v.elementSize * index).toUInt64.toUInt32).toNat =
        v.elementSize.toNat * v.count.toNat - v.elementSize.toNat * position index := by
      rw [toNat_sub_of_le (by omega), hoff32, htotal']
    refine move_erasedAt h hk hdst (hdst.succ hoff) ?_
    rw [toNat_sub_of_le (by omega), hrest, Nat.mul_sub, Nat.mul_sub, Nat.mul_one]
    omega

theorem eraseElement_spec (h : v.Sound) {element : UInt64} {k : Nat} (hk : k < v.count.toNat)
    (hp : v.PointsTo element k) : v.ErasedAt (vectorEraseElement v element) k := by
  have hle := h.count_le
  have hpos := h.elementSize_pos
  have hpred : (v.count - 1).toNat = v.count.toNat - 1 := toNat_pred (by omega)
  have hlast : v.PointsTo ((v.count - 1) * v.elementSize).toUInt64 (v.count.toNat - 1) := by
    rw [UInt32.mul_comm, ← hpred]
    exact pointsTo_mul (h.offset_lt (by omega))
  unfold vectorEraseElement
  dsimp only
  split_ifs with hne
  · have hkle : v.elementSize.toNat * k ≤ v.elementSize.toNat * (v.count.toNat - 1) :=
      Nat.mul_le_mul_left _ (by omega)
    have hlastlt := h.offset_lt (show v.count.toNat - 1 ≤ v.capacity.toNat + 1 by omega)
    have hoff := h.offset_lt (show k ≤ v.capacity.toNat + 1 by omega)
    refine move_erasedAt h hk hp (hp.succ hoff) ?_
    have hsub : (((v.count - 1) * v.elementSize).toUInt64 - element).toNat =
        v.elementSize.toNat * (v.count.toNat - 1) - v.elementSize.toNat * k := by
      rw [UInt64.toNat_sub_of_le _ _ (UInt64.le_iff_toNat_le.mpr ?_), hlast.offset, hp.offset]
      rw [hlast.offset, hp.offset]
      exact hkle
    rw [UInt64.toNat_toUInt32, hsub, ← Nat.mul_sub]
    exact Nat.mod_eq_of_lt (h.offset_lt (by omega))
  · have heq : v.elementSize.toNat * k = v.elementSize.toNat * (v.count.toNat - 1) := by
      rw [← hp.offset, ← hlast.offset, not_not.mp hne]
    rw [Nat.eq_of_mul_eq_mul_left hpos heq]
    have herased := (pop_spec h (by omega)).1
    unfold vectorPop at herased
    rwa [if_neg (toNat_ne_zero.mpr (by omega))] at herased

theorem reserve_spec (h : v.Sound) (size : UInt32) (g : Grant) :
    let r := vectorReserve v size (some g)
    r.1 = 0 ∧ r.2.count = v.count ∧ r.2.elementSize = v.elementSize ∧
      (v.elementSize.toNat * (r.2.capacity.toNat + 1) < 2 ^ 32 →
        r.2.Sound ∧ size.toNat ≤ r.2.capacity.toNat ∧ ∀ i < v.count.toNat, r.2.elems i = v.elems i) := by
  have hle := h.count_le
  unfold vectorReserve
  by_cases hsize : v.capacity < size
  · have hsize' := UInt32.lt_iff_toNat_lt.mp hsize
    obtain ⟨hok, hcap, hcount, hes, hspec⟩ := @realloc_spec v size h (by omega) (fun _ => by omega) g
    have hcapn : v.reallocCapacity size = size := by
      have hne : size ≠ 0 := toNat_ne_zero.mpr (by omega)
      simp [reallocCapacity, hne]
    rw [if_pos hsize]
    dsimp only
    rw [hok, if_neg (by simp)]
    refine ⟨rfl, hcount, hes, fun hfits => ?_⟩
    obtain ⟨hsound, helems⟩ := hspec hfits
    exact ⟨hsound, by rw [hcap, hcapn], helems⟩
  · have hsize' := UInt32.lt_iff_toNat_lt.not.mp hsize
    rw [if_neg hsize]
    exact ⟨rfl, rfl, rfl, fun _ => ⟨h, by change size.toNat ≤ v.capacity.toNat; omega, fun _ _ => rfl⟩⟩

/-- `vector_resize` keeps the elements that there is room for. -/
theorem resize_spec (h : v.Sound) (size : UInt32) (g : Grant) :
    let r := vectorResize v size (some g)
    r.1 = 0 ∧ r.2.elementSize = v.elementSize ∧
      (v.elementSize.toNat * (r.2.capacity.toNat + 1) < 2 ^ 32 →
        r.2.Sound ∧ r.2.count = size ∧
          ∀ i < min v.count.toNat size.toNat, r.2.elems i = v.elems i) := by
  obtain ⟨hok, hcount, hes, hspec⟩ := reserve_spec h size g
  unfold vectorResize
  dsimp only
  rw [hok, if_neg (by simp)]
  refine ⟨rfl, hes, fun hfits => ?_⟩
  obtain ⟨hsound, hroom, helems⟩ := hspec hfits
  exact ⟨hsound.of_sameBuffer rfl rfl rfl hroom, rfl, fun i hi => helems i (by omega)⟩

theorem compact_spec (h : v.Sound) (g : Grant) :
    let v' := vectorCompact v (some g)
    v'.elementSize = v.elementSize ∧
      (v.elementSize.toNat * (v'.capacity.toNat + 1) < 2 ^ 32 → v'.Sound ∧ v'.toList = v.toList) := by
  unfold vectorCompact
  split_ifs with hzero
  · have hcount : v.count.toNat = 0 := by rw [hzero]; rfl
    refine ⟨rfl, fun hfits => ⟨⟨h.elementSize_pos, hcount.le, hfits, ?_, ⟨fun _ => rfl, fun _ => rfl⟩⟩, ?_⟩⟩
    · intro d hd
      cases hd
    · change tabulate _ v.count.toNat = tabulate _ v.count.toNat
      rw [hcount]
      rfl
  · have hpos := toNat_ne_zero.mp hzero
    obtain ⟨_, _, hcount, hes, hspec⟩ := @realloc_spec v v.count h le_rfl (fun _ => hpos) g
    refine ⟨hes, fun hfits => ⟨(hspec hfits).1, ?_⟩⟩
    rw [toList, toList, hcount]
    exact tabulate_congr (hspec hfits).2

lemma clear_sound (h : v.Sound) : (vectorClear v).Sound :=
  h.of_sameBuffer rfl rfl rfl (Nat.zero_le _)

lemma clearCompact_sound (h : v.Sound) : (vectorClearCompact v).Sound where
  elementSize_pos := h.elementSize_pos
  count_le := le_rfl
  fits := h.offset_lt (i := 1) (by omega)
  buffer := by
    intro d hd
    cases hd
  unallocated := ⟨fun _ => rfl, fun _ => rfl⟩

/-- Copying `n` elements behind the used ones. -/
theorem elems_append (h : v.Sound) {w : CsVector} (hes : w.elementSize = v.elementSize)
    (hroom : v.count.toNat + w.count.toNat ≤ v.capacity.toNat) (i : Nat) :
    let v' := v.write (v.count * v.elementSize).toUInt64
      (slice w.bytes 0 (w.count * v.elementSize).toNat)
    (i < v.count.toNat → v'.elems i = v.elems i) ∧
      (i < w.count.toNat → v'.elems (v.count.toNat + i) = w.elems i) := by
  have hcount := h.offset_lt (show v.count.toNat ≤ v.capacity.toNat + 1 by omega)
  have hlenlt := h.offset_lt (show w.count.toNat ≤ v.capacity.toNat + 1 by omega)
  have hp : v.PointsTo (v.count * v.elementSize).toUInt64 v.count.toNat := by
    rw [UInt32.mul_comm]
    exact pointsTo_mul hcount
  have hlen : (w.count * v.elementSize).toNat = v.elementSize.toNat * w.count.toNat := by
    rw [UInt32.mul_comm, toNat_mul_of_lt hlenlt]
  rw [hlen]
  intro v'
  have hbytes : 0 < v.capacity.toNat → v'.bytes = memcpy v.bytes (v.elementSize.toNat * v.count.toNat)
      (slice w.bytes 0 (v.elementSize.toNat * w.count.toNat)) := by
    intro hpos
    rw [← hp.offset]
    exact bytes_setBytes (h.isSome hpos)
  constructor
  · intro hi
    have hstride := stride_le v.elementSize.toNat hi
    change record v'.bytes 0 v.elementSize.toNat i = record v.bytes 0 v.elementSize.toNat i
    rw [hbytes (by omega)]
    exact slice_memcpy_of_disjoint (Or.inl (by omega))
  · intro hi
    have hstride := stride_le v.elementSize.toNat hi
    change record v'.bytes 0 v.elementSize.toNat (v.count.toNat + i) = record w.bytes 0 w.elementSize.toNat i
    rw [hbytes (by omega), hes, record, record, Nat.zero_add, Nat.mul_add]
    exact slice_memcpy_slice (by omega)

end CsVector

/-- The number of elements that a call reallocates the buffer for. -/
def VectorCall.newCapacity (v : CsVector) : VectorCall → Option UInt32
  | .push _ | .emplace _ | .insert _ _ | .insertEmplace _ _ =>
    if v.count = v.capacity then some (v.count * vecExpandFactor) else none
  | .resize size | .reserve size => if v.capacity < size then some size else none
  | .compact => if v.count = 0 then none else some v.count
  | _ => none

def StoreCall.newCapacity (store : VectorStore) : StoreCall → Option UInt32
  | .on vector call => call.newCapacity (store vector)
  | .pushVector vector sourceVector =>
    if (store vector).elementSize ≠ (store sourceVector).elementSize then none
    else
      let newCount := (store vector).count + (store sourceVector).count
      if newCount > (store vector).capacity then some newCount else none

namespace CsVector

/-- `f` does not look at what calls write: the buffer, the capacity and the count. -/
def Unwritten {α : Type} (f : CsVector → α) : Prop :=
  ∀ (v : CsVector) (data : Option Block) (cap count : UInt32),
    f { v with data := data, capacity := cap, count := count } = f v

namespace Unwritten

variable {α : Type} {f : CsVector → α} {answer : AllocAnswer} {index : Int64}

lemma realloc (hf : Unwritten f) (index : Int64) (hrefused : answer = none → f (v.refused n) = f v) :
    f (vectorRealloc v index n answer).2 = f v := by
  rcases realloc_cases v index n answer with ⟨hnone, hval⟩ | ⟨_, d, hval, _⟩
  · rw [hval]
    exact hrefused hnone
  · rw [hval]
    exact hf v _ _ _

/-- The common course of `vector_emplace` and `vector_insert_emplace`. -/
lemma emplaced (hf : Unwritten f) {shifted : CsVector} (hshifted : f shifted = f v)
    (pointer : CsVector → UInt64)
    (hrefused : v.count = v.capacity → answer = none → f (v.refused (v.count * vecExpandFactor)) = f v) :
    let r := if v.count = v.capacity then vectorRealloc v index (v.count * vecExpandFactor) answer
      else (0, shifted)
    f (if r.1 ≠ 0 then ((none : Option UInt64), r.2)
      else (some (pointer r.2), { r.2 with count := r.2.count + 1 })).2 = f v := by
  intro r
  have hr : f r.2 = f v := by
    unfold r
    split_ifs with hfull
    · exact hf.realloc index (hrefused hfull)
    · exact hshifted
  split_ifs
  · exact hr
  · exact (hf r.2 _ _ _).trans hr

lemma emplace (hf : Unwritten f)
    (hrefused : v.count = v.capacity → answer = none → f (v.refused (v.count * vecExpandFactor)) = f v) :
    f (vectorEmplace v answer).2 = f v :=
  hf.emplaced rfl (fun v => (v.elementSize * v.count).toUInt64) hrefused

lemma insertEmplace (hf : Unwritten f) (index : Int64)
    (hrefused : v.count = v.capacity → answer = none → f (v.refused (v.count * vecExpandFactor)) = f v) :
    f (vectorInsertEmplace v index answer).2 = f v :=
  hf.emplaced (hf v _ _ _) (fun v => (index * toIdx v.elementSize).toUInt64) hrefused

lemma copyEmplaced (hf : Unwritten f) (value : List Byte) (r : Option UInt64 × CsVector) :
    f (copyEmplaced value r).2 = f r.2 := by
  obtain ⟨_ | p, v⟩ := r
  · rfl
  · exact hf v _ _ _

lemma writeEmplaced (hf : Unwritten f) (value : List Byte) (r : Option UInt64 × CsVector) :
    f (writeEmplaced value r).2 = f r.2 := by
  obtain ⟨_ | p, v⟩ := r
  · rfl
  · exact hf v _ _ _

lemma reserve (hf : Unwritten f) (hrefused : v.capacity < n → answer = none → f (v.refused n) = f v) :
    f (vectorReserve v n answer).2 = f v := by
  unfold vectorReserve
  by_cases hlt : v.capacity < n
  · have hr := hf.realloc vecInvalidIndex (hrefused hlt)
    rw [if_pos hlt]
    dsimp only
    split_ifs <;> exact hr
  · rw [if_neg hlt]

end Unwritten

lemma vectorReverse_eq_setBytes (v : CsVector) : ∃ m, vectorReverse v = v.setBytes m := by
  unfold vectorReverse reverseWithin
  rw [Logged.val_bind, Logged.val_pure]
  cases (reverseLoop v (2 ^ 32) 0 ((v.count - 1) * v.elementSize).toUInt64 v.bytes).val with
  | none => exact ⟨v.bytes, (setBytes_bytes v).symm⟩
  | some m => exact ⟨m, rfl⟩

/-- A call writes the buffer, the capacity and the count, and no more unless it is refused memory. -/
theorem Unwritten.call {α : Type} {f : CsVector → α} (hf : Unwritten f) (v : CsVector)
    {answer : AllocAnswer} {call : VectorCall}
    (hrefused : ∀ n ∈ call.newCapacity v, answer = none → f (v.refused n) = f v) :
    f (vectorCall v answer call).2 = f v := by
  cases call with
  | push value =>
    exact (hf.copyEmplaced value _).trans (hf.emplace fun h => hrefused _ (if_pos h))
  | emplace value =>
    exact (hf.writeEmplaced value _).trans (hf.emplace fun h => hrefused _ (if_pos h))
  | insert index value =>
    exact (hf.copyEmplaced value _).trans (hf.insertEmplace index fun h => hrefused _ (if_pos h))
  | insertEmplace index value =>
    exact (hf.writeEmplaced value _).trans (hf.insertEmplace index fun h => hrefused _ (if_pos h))
  | pop =>
    change f (vectorPop v).2 = _
    unfold vectorPop
    split_ifs
    · rfl
    · exact hf v _ _ _
  | eraseIndex index =>
    change f (vectorEraseIndex v index) = _
    unfold vectorEraseIndex vectorPop
    split_ifs
    · rfl
    · exact hf v _ _ _
    · exact hf v _ _ _
  | eraseElement element =>
    change f (vectorEraseElement v element) = _
    unfold vectorEraseElement
    dsimp only
    split_ifs <;> exact hf v _ _ _
  | resize size =>
    have hreserve := hf.reserve fun h => hrefused size (if_pos h)
    change f (vectorResize v size answer).2 = _
    unfold vectorResize
    dsimp only
    split_ifs
    · exact hreserve
    · exact (hf _ _ _ _).trans hreserve
  | reserve size => exact hf.reserve fun h => hrefused size (if_pos h)
  | compact =>
    change f (vectorCompact v answer) = _
    unfold vectorCompact
    split_ifs with hzero
    · exact hf v _ _ _
    · exact hf.realloc vecInvalidIndex (hrefused v.count (if_neg hzero))
  | clear => exact hf v _ _ _
  | clearCompact => exact hf v _ _ _
  | reverse =>
    obtain ⟨m, hm⟩ := vectorReverse_eq_setBytes v
    change f (vectorReverse v) = _
    rw [hm]
    exact hf v _ _ _
  | back => rfl
  | findElement value => rfl

lemma Unwritten.update {α : Type} {f : CsVector → α} {store : VectorStore} {i : Nat} (hv : f v = f (store i))
    (k : Nat) : f (Function.update store i v k) = f (store k) := by
  by_cases hk : k = i
  · rw [hk, Function.update_self, hv]
  · rw [Function.update_of_ne hk]

theorem Unwritten.pushVector {α : Type} {f : CsVector → α} (hf : Unwritten f) (store : VectorStore)
    (i j k : Nat) {answer : AllocAnswer} (hrefused : ∀ n ∈ (StoreCall.pushVector i j).newCapacity store,
      answer = none → f ((store i).refused n) = f (store i)) :
    f ((vectorPushVector store i j answer).2 k) = f (store k) := by
  unfold vectorPushVector
  by_cases hes : (store i).elementSize ≠ (store j).elementSize
  · rw [if_pos hes]
  · rw [if_neg hes]
    dsimp only
    generalize hr : (if (store i).count + (store j).count > (store i).capacity then
      vectorRealloc (store i) vecInvalidIndex ((store i).count + (store j).count) answer else (0, store i)) = r
    have hgrown : f r.2 = f (store i) := by
      rw [← hr]
      split_ifs with hlt
      · exact hf.realloc vecInvalidIndex (hrefused _ ((if_neg hes).trans (if_pos hlt)))
      · rfl
    split_ifs
    · exact update hgrown k
    · rw [Function.update_idem]
      exact update ((hf r.2 _ _ _).trans hgrown) k

theorem vectorCall_elementSize (v : CsVector) (answer : AllocAnswer) (call : VectorCall) :
    (vectorCall v answer call).2.elementSize = v.elementSize :=
  Unwritten.call (fun _ _ _ _ => rfl) v fun n _ _ => refused_elementSize v n

lemma pushVector_elementSize (store : VectorStore) (i j k : Nat) (answer : AllocAnswer) :
    ((vectorPushVector store i j answer).2 k).elementSize = (store k).elementSize :=
  Unwritten.pushVector (fun _ _ _ _ => rfl) store i j k fun n _ _ => refused_elementSize (store i) n

end CsVector

end CStructures
