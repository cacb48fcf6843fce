import CStructures.Lib.Sweep
import CStructures.Proofs.VectorRefinement

/-!
# Loops over the vector

The four macros that iterate over a vector differ in the pointer with which they start and in
the test with which they end. Each is a sweep over the positions of a range, forwards or
backwards.
-/

namespace CStructures
open Lib

namespace CsVector

variable {α : Type} {v v' : CsVector} {body : α → List Byte → α × List Byte} {a : α}
  {test : UInt64 → Bool} {passes i n : Nat} {p var : UInt64}

def At (v : CsVector) (var : UInt64) (i : Nat) : Prop := v.PointsTo (var - v.base) i

lemma PointsTo.at (h : v.PointsTo p i) : v.At (v.base + p) i := by
  unfold At
  rwa [UInt64.add_comm, UInt64.add_sub_cancel]

lemma At.succ (h : v.At var i) (hlt : v.elementSize.toNat * i < 2 ^ 32) :
    v.At (var + v.elementSize.toUInt64) (i + 1) := by
  have hmove : var + v.elementSize.toUInt64 - v.base = var - v.base + v.elementSize.toUInt64 := by
    grind
  unfold At
  rw [hmove]
  exact PointsTo.succ h hlt

lemma At.pred (h : v.At (var + v.elementSize.toUInt64) (i + 1)) : v.At var i := by
  have hmove : var - v.base = var + v.elementSize.toUInt64 - v.base - v.elementSize.toUInt64 := by
    grind
  have hoff := h.offset
  rw [Nat.mul_add, Nat.mul_one] at hoff
  unfold At PointsTo
  rw [hmove, UInt64.toNat_sub_of_le, hoff, UInt32.toNat_toUInt64, Nat.add_sub_cancel]
  rw [UInt64.le_iff_toNat_le, hoff, UInt32.toNat_toUInt64]
  exact Nat.le_add_left _ _

lemma At.eq_iff {q : UInt64} {j : Nat} (hes : 0 < v.elementSize.toNat) (hp : v.At p i) (hq : v.At q j) :
    p = q ↔ i = j := by
  rw [← UInt64.sub_left_inj (c := v.base), ← UInt64.toNat_inj, hp.offset, hq.offset]
  exact Nat.mul_right_inj hes.ne'

lemma At.congr (h : v.At p i) (hbase : v'.base = v.base) (hes : v'.elementSize = v.elementSize) :
    v'.At p i := by
  unfold At
  rw [hbase]
  exact PointsTo.congr h hes

/-- The same vector with the elements of `l`. -/
structure Rewritten (v v' : CsVector) (l : Elements) : Prop where
  sound : v'.Sound
  base : v'.base = v.base
  count : v'.count = v.count
  elementSize : v'.elementSize = v.elementSize
  toList : v'.toList = l

lemma Rewritten.refl (h : v.Sound) : v.Rewritten v v.toList := ⟨h, rfl, rfl, rfl, rfl⟩

lemma Rewritten.trans {v'' : CsVector} {l l' : Elements} (h : v.Rewritten v' l) (h' : v'.Rewritten v'' l') :
    v.Rewritten v'' l' :=
  ⟨h'.sound, h'.base.trans h.base, h'.count.trans h.count, h'.elementSize.trans h.elementSize, h'.toList⟩

lemma base_setBytes (m : Bytes) : (v.setBytes m).base = v.base := by
  simp [base, setBytes, Function.comp_def]

/-- What the body is given and leaves at position `i`. -/
lemma At.visit (h : v.At var i) (hv : v.Sound) (hi : i < v.count.toNat) {x : List Byte}
    (hx : x.length = v.elementSize.toNat) :
    v.toList[i]? = some (v.deref (var - v.base)) ∧
      v.Rewritten (v.write (var - v.base) x) (v.toList.set i x) := by
  have hlt : i < v.toList.length := by rwa [length_toList]
  have hd : v.data.isSome := hv.isSome (by have := hv.count_le; omega)
  refine ⟨?_, hv.of_sameBuffer rfl rfl setBytes_size hv.count_le, base_setBytes _, rfl, rfl, ?_⟩
  · rw [List.getElem?_eq_getElem hlt, PointsTo.deref h]
    exact congrArg some (getElem_tabulate _)
  · apply List.ext_getElem
    · rw [List.length_set, length_toList, length_toList]
      rfl
    · intro j hj hj'
      rw [List.getElem_set]
      simp only [toList, getElem_tabulate, elems_write hd h hx, eq_comm]

theorem forEachLoop_up (hv : v.Sound) (hbody : ∀ a x, (body a x).2.length = v.elementSize.toNat)
    (hat : v.At var i) (hle : i + n ≤ v.count.toNat)
    (htest : ∀ q j, i ≤ j → j ≤ i + n → v.At q j → (test q = true ↔ j < i + n)) (hpasses : n < passes) :
    let r := forEachLoop body test (fun v var => var + v.elementSize.toUInt64) passes var (a, v)
    List.Forall₂ v.At r.log (List.range' i n) ∧
      ∃ v', r.val = some ((sweep body (List.range' i n) (a, v.toList)).1, v') ∧
        v.Rewritten v' (sweep body (List.range' i n) (a, v.toList)).2 := by
  induction n generalizing passes i var a v with
  | zero =>
    obtain ⟨passes, rfl⟩ := Nat.exists_eq_succ_of_ne_zero hpasses.ne'
    have hends : ¬test var = true := fun h => absurd ((htest var i le_rfl le_rfl hat).mp h) (lt_irrefl i)
    rw [forEachLoop, if_neg hends]
    exact ⟨.nil, v, rfl, .refl hv⟩
  | succ n ih =>
    obtain ⟨passes, rfl⟩ := Nat.exists_eq_succ_of_ne_zero (Nat.zero_lt_of_lt hpasses).ne'
    have hgoes : test var = true := (htest var i le_rfl (by omega) hat).mpr (by omega)
    obtain ⟨hget, hre⟩ := hat.visit hv (by omega) (hbody a (v.deref (var - v.base)))
    have hcap := hv.count_le
    have hnext := (hat.succ (hv.offset_lt (by omega))).congr hre.base hre.elementSize
    have htest' : ∀ q j, i + 1 ≤ j → j ≤ i + 1 + n →
        (v.write (var - v.base) (body a (v.deref (var - v.base))).2).At q j →
        (test q = true ↔ j < i + 1 + n) := by
      intro q j hij hj hq
      rw [htest q j (by omega) (by omega) (hq.congr hre.base.symm hre.elementSize.symm)]
      omega
    obtain ⟨hlog, v', hval, hre'⟩ := ih (a := (body a (v.deref (var - v.base))).1) hre.sound
      (by rwa [hre.elementSize]) hnext (by rw [hre.count]; omega) htest' (Nat.lt_of_succ_lt_succ hpasses)
    rw [forEachLoop, if_pos hgoes, List.range'_succ, sweep_cons hget, ← hre.toList]
    exact ⟨.cons hat (hlog.imp fun _ _ h => h.congr hre.base.symm hre.elementSize.symm), v', hval,
      hre.trans hre'⟩

theorem forEachLoop_down (hv : v.Sound) (hbody : ∀ a x, (body a x).2.length = v.elementSize.toNat)
    (hat : v.At (var + v.elementSize.toUInt64) (i + n)) (hle : i + n ≤ v.count.toNat)
    (htest : ∀ q j, i ≤ j → j ≤ i + n → v.At (q + v.elementSize.toUInt64) j → (test q = true ↔ i < j))
    (hpasses : n < passes) :
    let r := forEachLoop body test (fun v var => var - v.elementSize.toUInt64) passes var (a, v)
    List.Forall₂ v.At r.log (List.range' i n).reverse ∧
      ∃ v', r.val = some ((sweep body (List.range' i n).reverse (a, v.toList)).1, v') ∧
        v.Rewritten v' (sweep body (List.range' i n).reverse (a, v.toList)).2 := by
  induction n generalizing passes var a v with
  | zero =>
    obtain ⟨passes, rfl⟩ := Nat.exists_eq_succ_of_ne_zero hpasses.ne'
    have hends : ¬test var = true := fun h => absurd ((htest var i le_rfl le_rfl hat).mp h) (lt_irrefl i)
    rw [forEachLoop, if_neg hends]
    exact ⟨.nil, v, rfl, .refl hv⟩
  | succ n ih =>
    obtain ⟨passes, rfl⟩ := Nat.exists_eq_succ_of_ne_zero (Nat.zero_lt_of_lt hpasses).ne'
    have hgoes : test var = true := (htest var (i + (n + 1)) (by omega) le_rfl hat).mpr (by omega)
    have hat' : v.At var (i + n) := hat.pred
    obtain ⟨hget, hre⟩ := hat'.visit hv (by omega) (hbody a (v.deref (var - v.base)))
    have hnext : v.At (var - v.elementSize.toUInt64 + v.elementSize.toUInt64) (i + n) := by
      rwa [UInt64.sub_add_cancel]
    have htest' : ∀ q j, i ≤ j → j ≤ i + n →
        (v.write (var - v.base) (body a (v.deref (var - v.base))).2).At (q + v.elementSize.toUInt64) j →
        (test q = true ↔ i < j) :=
      fun q j hij hj hq => htest q j hij (by omega) (hq.congr hre.base.symm hre.elementSize.symm)
    obtain ⟨hlog, v', hval, hre'⟩ := ih (a := (body a (v.deref (var - v.base))).1) hre.sound
      (by rwa [hre.elementSize]) (hnext.congr hre.base hre.elementSize) (by rw [hre.count]; omega) htest'
      (Nat.lt_of_succ_lt_succ hpasses)
    rw [forEachLoop, if_pos hgoes, List.range'_concat, List.reverse_append, List.reverse_singleton,
      List.singleton_append, Nat.one_mul, sweep_cons hget, ← hre.toList]
    exact ⟨.cons hat' (hlog.imp fun _ _ h => h.congr hre.base.symm hre.elementSize.symm), v', hval,
      hre.trans hre'⟩

/-- The buffer does not reach the end of the address space, and lies behind the addresses that are
lower than the size of an element. -/
def Placed (v : CsVector) : Prop :=
  ∀ d ∈ v.data, v.elementSize.toNat ≤ d.addr.toNat ∧ d.addr.toNat + d.size ≤ 2 ^ 64

lemma At.toNat {d : Block} (h : v.At p i) (hv : v.Sound) (hplaced : v.Placed) (hd : v.data = some d)
    (hi : i ≤ v.capacity.toNat) : p.toNat = d.addr.toNat + v.elementSize.toNat * i := by
  have hbase : v.base = d.addr := by
    rw [base, hd]
    rfl
  have hp : p = v.base + (p - v.base) := by grind
  have hbuffer := hv.buffer d hd
  have hend := (hplaced d hd).2
  have hpos := hv.elementSize_pos
  have hmul := Nat.mul_le_mul_left v.elementSize.toNat hi
  rw [Nat.mul_add, Nat.mul_one] at hbuffer
  have hoff := h.offset
  rw [hp, toNat_add_of_lt, hbase, ← hbase, hoff, hbase]
  rw [hoff, hbase]
  omega

lemma At.inside (h : v.At p i) (hv : v.Sound) (hi : i < v.count.toNat) :
    ∃ d ∈ v.data, (p - d.addr).toNat + v.elementSize.toNat ≤ d.size := by
  have hcount := hv.count_le
  obtain ⟨d, hd⟩ := Option.isSome_iff_exists.mp (hv.isSome (by omega))
  have hbase : v.base = d.addr := by
    rw [base, hd]
    rfl
  have hbuffer := hv.buffer d hd
  have hmul := Nat.mul_le_mul_left v.elementSize.toNat (show i + 1 ≤ v.capacity.toNat + 1 by omega)
  refine ⟨d, hd, ?_⟩
  rw [← hbase, h.offset]
  rw [Nat.mul_add, Nat.mul_one] at hmul
  omega

lemma At.eq_of_unallocated {q : UInt64} {j : Nat} (hp : v.At p i) (hq : v.At q j) (hv : v.Sound)
    (hd : v.data = none) (hi : i ≤ v.count.toNat) (hj : j ≤ v.count.toNat) : p = q ∧ i = j := by
  have hcount := hv.count_le
  rw [hv.unallocated.mp hd] at hcount
  change v.count.toNat ≤ 0 at hcount
  obtain rfl : i = j := by omega
  exact ⟨(hp.eq_iff hv.elementSize_pos hq).mpr rfl, rfl⟩

lemma At.lt_iff {q : UInt64} {j : Nat} (hp : v.At p i) (hq : v.At q j) (hv : v.Sound) (hplaced : v.Placed)
    (hi : i ≤ v.count.toNat) (hj : j ≤ v.count.toNat) : p < q ↔ i < j := by
  have hcount := hv.count_le
  cases hd : v.data with
  | none =>
    obtain ⟨rfl, rfl⟩ := hp.eq_of_unallocated hq hv hd hi hj
    exact iff_of_false (UInt64.lt_irrefl p) (lt_irrefl i)
  | some d =>
    rw [UInt64.lt_iff_toNat_lt, hp.toNat hv hplaced hd (by omega), hq.toNat hv hplaced hd (by omega),
      Nat.add_lt_add_iff_left]
    exact Nat.mul_lt_mul_left hv.elementSize_pos

/-- The same for the addresses one element lower. -/
lemma At.lt_iff_below {q : UInt64} {j : Nat} (hp : v.At (p + v.elementSize.toUInt64) i)
    (hq : v.At (q + v.elementSize.toUInt64) j) (hv : v.Sound) (hplaced : v.Placed)
    (hi : i ≤ v.count.toNat) (hj : j ≤ v.count.toNat) : p < q ↔ i < j := by
  cases hd : v.data with
  | none =>
    obtain ⟨heq, rfl⟩ := hp.eq_of_unallocated hq hv hd hi hj
    rw [(UInt64.add_left_inj _).mp heq]
    exact iff_of_false (UInt64.lt_irrefl q) (lt_irrefl i)
  | some d =>
    have hcount := hv.count_le
    have hlow := (hplaced d hd).1
    have hbelow : ∀ r k, v.At (r + v.elementSize.toUInt64) k → k ≤ v.count.toNat →
        r.toNat + v.elementSize.toNat = (r + v.elementSize.toUInt64).toNat := by
      intro r k hr hk
      have hto := hr.toNat hv hplaced hd (hk.trans hcount)
      have hback : r = r + v.elementSize.toUInt64 - v.elementSize.toUInt64 :=
        (UInt64.add_sub_cancel r _).symm
      have hle : v.elementSize.toUInt64 ≤ r + v.elementSize.toUInt64 := by
        rw [UInt64.le_iff_toNat_le, hto, UInt32.toNat_toUInt64]
        omega
      have hsub := congrArg UInt64.toNat hback
      rw [UInt64.toNat_sub_of_le _ _ hle, UInt32.toNat_toUInt64] at hsub
      rw [UInt64.le_iff_toNat_le, UInt32.toNat_toUInt64] at hle
      omega
    rw [← hp.lt_iff hq hv hplaced hi hj, UInt64.lt_iff_toNat_lt, UInt64.lt_iff_toNat_lt,
      ← hbelow p i hp hi, ← hbelow q j hq hj, Nat.add_lt_add_iff_right]

lemma at_base (v : CsVector) : v.At v.base 0 := by
  unfold At PointsTo
  rw [UInt64.sub_self, Nat.mul_zero]
  rfl

lemma at_index (hv : v.Sound) {k : UInt32} (hk : k.toNat ≤ v.count.toNat) :
    v.At (v.base + (k * v.elementSize).toUInt64) k.toNat := by
  have hcount := hv.count_le
  rw [UInt32.mul_comm]
  exact (pointsTo_mul (hv.offset_lt (by omega))).at

end CsVector

inductive VectorLoop
  | forEach
  | forEachR
  | range (beginIndex endIndex : UInt32)
  | rangeR (beginIndex endIndex : UInt32)
  deriving DecidableEq

namespace VectorLoop

def run {α : Type} (body : α → List Byte → α × List Byte) (passes : Nat) (c : α × CsVector) :
    VectorLoop → Logged UInt64 (Option (α × CsVector))
  | forEach => vectorForEach body passes c
  | forEachR => vectorForEachR body passes c
  | range beginIndex endIndex => vectorForEachRange body beginIndex endIndex passes c
  | rangeR beginIndex endIndex => vectorForEachRangeR body beginIndex endIndex passes c

def positions (count : Nat) : VectorLoop → List Nat
  | forEach => List.range count
  | forEachR => (List.range count).reverse
  | range beginIndex endIndex => List.range' beginIndex.toNat (endIndex.toNat - beginIndex.toNat)
  | rangeR beginIndex endIndex => (List.range' beginIndex.toNat (endIndex.toNat - beginIndex.toNat)).reverse

def Fits (v : CsVector) : VectorLoop → Prop
  | range beginIndex endIndex | rangeR beginIndex endIndex =>
    beginIndex ≤ v.count ∧ endIndex ≤ v.count ∧ v.Placed
  | _ => True

lemma lt_of_mem_positions {v : CsVector} (loop : VectorLoop) (hfits : loop.Fits v) {k : Nat}
    (hk : k ∈ loop.positions v.count.toNat) : k < v.count.toNat := by
  cases loop with
  | forEach => exact List.mem_range.mp hk
  | forEachR => exact List.mem_range.mp (List.mem_reverse.mp hk)
  | range b e =>
    have he := UInt32.le_iff_toNat_le.mp hfits.2.1
    have hrange := List.mem_range'_1.mp hk
    omega
  | rangeR b e =>
    have he := UInt32.le_iff_toNat_le.mp hfits.2.1
    have hrange := List.mem_range'_1.mp (List.mem_reverse.mp hk)
    omega

lemma nodup_positions (loop : VectorLoop) (count : Nat) : (loop.positions count).Nodup := by
  cases loop with
  | forEach => exact List.nodup_range
  | forEachR => exact List.nodup_reverse.mpr List.nodup_range
  | range => exact List.nodup_range'
  | rangeR => exact List.nodup_reverse.mpr List.nodup_range'

/-- What a loop does: `c` are the body's state and the elements at the end. -/
def Sweeps {α : Type} (v : CsVector) (positions : List Nat) (c : α × Elements)
    (r : Logged UInt64 (Option (α × CsVector))) : Prop :=
  List.Forall₂ v.At r.log positions ∧ ∃ v', r.val = some (c.1, v') ∧ v.Rewritten v' c.2

variable {α : Type} {v : CsVector} {body : α → List Byte → α × List Byte} {a : α} {passes : Nat}

lemma forEach_sweeps (hv : v.Sound) (hbody : ∀ a x, (body a x).2.length = v.elementSize.toNat)
    (hpasses : v.count.toNat < passes) : Sweeps v (List.range v.count.toNat)
      (sweep body (List.range v.count.toNat) (a, v.toList)) (vectorForEach body passes (a, v)) := by
  have hend := CsVector.at_index hv (k := v.count) le_rfl
  rw [List.range_eq_range']
  refine CsVector.forEachLoop_up hv hbody v.at_base (Nat.zero_add _).le ?_ hpasses
  intro q j _ hj hq
  rw [decide_eq_true_eq, Ne, hq.eq_iff hv.elementSize_pos hend]
  omega

lemma forEachR_sweeps (hv : v.Sound) (hbody : ∀ a x, (body a x).2.length = v.elementSize.toNat)
    (hpasses : v.count.toNat < passes) : Sweeps v (List.range v.count.toNat).reverse
      (sweep body (List.range v.count.toNat).reverse (a, v.toList)) (vectorForEachR body passes (a, v)) := by
  have hlast : v.At (v.base + (v.count * v.elementSize).toUInt64 - v.elementSize.toUInt64 +
      v.elementSize.toUInt64) (0 + v.count.toNat) := by
    rw [UInt64.sub_add_cancel, Nat.zero_add]
    exact CsVector.at_index hv le_rfl
  rw [List.range_eq_range']
  refine CsVector.forEachLoop_down hv hbody hlast (Nat.zero_add _).le ?_ hpasses
  intro q j _ hj hq
  have hstart : q = v.base - v.elementSize.toUInt64 ↔ q + v.elementSize.toUInt64 = v.base := by
    grind
  rw [decide_eq_true_eq, Ne, hstart, hq.eq_iff hv.elementSize_pos v.at_base]
  omega

lemma range_sweeps (hv : v.Sound) {b e : UInt32} (hb : b.toNat ≤ v.count.toNat) (he : e.toNat ≤ v.count.toNat)
    (hplaced : v.Placed) (hbody : ∀ a x, (body a x).2.length = v.elementSize.toNat)
    (hpasses : v.count.toNat < passes) : Sweeps v (List.range' b.toNat (e.toNat - b.toNat))
      (sweep body (List.range' b.toNat (e.toNat - b.toNat)) (a, v.toList))
      (vectorForEachRange body b e passes (a, v)) := by
  refine CsVector.forEachLoop_up hv hbody (CsVector.at_index hv hb) (by omega) ?_ (by omega)
  intro q j _ hj hq
  rw [decide_eq_true_eq, hq.lt_iff (CsVector.at_index hv he) hv hplaced (by omega) he]
  omega

lemma rangeR_sweeps (hv : v.Sound) {b e : UInt32} (hb : b.toNat ≤ v.count.toNat) (he : e.toNat ≤ v.count.toNat)
    (hplaced : v.Placed) (hbody : ∀ a x, (body a x).2.length = v.elementSize.toNat)
    (hpasses : v.count.toNat < passes) : Sweeps v (List.range' b.toNat (e.toNat - b.toNat)).reverse
      (sweep body (List.range' b.toNat (e.toNat - b.toNat)).reverse (a, v.toList))
      (vectorForEachRangeR body b e passes (a, v)) := by
  have hbelow : ∀ k : UInt32, k.toNat ≤ v.count.toNat → v.At (v.base + (k * v.elementSize).toUInt64 -
      v.elementSize.toUInt64 + v.elementSize.toUInt64) k.toNat := by
    intro k hk
    rw [UInt64.sub_add_cancel]
    exact CsVector.at_index hv hk
  by_cases hle : b.toNat ≤ e.toNat
  · have hlast := hbelow e he
    rw [← Nat.add_sub_cancel' hle] at hlast
    refine CsVector.forEachLoop_down hv hbody hlast (by omega) ?_ (by omega)
    intro q j _ hj hq
    rw [decide_eq_true_eq, (hbelow b hb).lt_iff_below hq hv hplaced hb (by omega)]
  · -- The loop starts below its end.
    obtain ⟨passes, rfl⟩ := Nat.exists_eq_succ_of_ne_zero (Nat.zero_lt_of_lt hpasses).ne'
    rw [Nat.sub_eq_zero_of_le (Nat.le_of_not_le hle), vectorForEachRangeR, forEachLoop, if_neg]
    · exact ⟨.nil, v, rfl, .refl hv⟩
    · rw [decide_eq_true_eq, (hbelow b hb).lt_iff_below (hbelow e he) hv hplaced hb he]
      omega

/-- Each loop ends, within one test more than there are elements, and sweeps over its positions. -/
theorem sweeps (loop : VectorLoop) (hv : v.Sound) (hfits : loop.Fits v)
    (hbody : ∀ a x, (body a x).2.length = v.elementSize.toNat) (hpasses : v.count.toNat < passes) :
    Sweeps v (loop.positions v.count.toNat) (sweep body (loop.positions v.count.toNat) (a, v.toList))
      (loop.run body passes (a, v)) := by
  cases loop with
  | forEach => exact forEach_sweeps hv hbody hpasses
  | forEachR => exact forEachR_sweeps hv hbody hpasses
  | range b e =>
    obtain ⟨hb, he, hplaced⟩ := hfits
    exact range_sweeps hv (UInt32.le_iff_toNat_le.mp hb) (UInt32.le_iff_toNat_le.mp he) hplaced hbody hpasses
  | rangeR b e =>
    obtain ⟨hb, he, hplaced⟩ := hfits
    exact rangeR_sweeps hv (UInt32.le_iff_toNat_le.mp hb) (UInt32.le_iff_toNat_le.mp he) hplaced hbody hpasses

/-- A loop that has ended takes no notice of more tests. -/
lemma forEachLoop_mono {test : UInt64 → Bool} {next : CsVector → UInt64 → UInt64} {passes passes' : Nat}
    {var : UInt64} {c r : α × CsVector} (hle : passes ≤ passes')
    (h : (forEachLoop body test next passes var c).val = some r) :
    (forEachLoop body test next passes' var c).val = some r := by
  induction passes generalizing passes' var c with
  | zero => cases h
  | succ passes ih =>
    obtain ⟨passes', rfl⟩ := Nat.exists_eq_add_of_le' (Nat.one_le_of_lt hle)
    obtain ⟨a, v⟩ := c
    rw [forEachLoop, Logged.val_ite] at h ⊢
    split_ifs at h ⊢
    · exact ih (Nat.le_of_succ_le_succ hle) h
    · exact h

lemma run_mono (loop : VectorLoop) {passes' : Nat} {c r : α × CsVector} (hle : passes ≤ passes')
    (h : (loop.run body passes c).val = some r) : (loop.run body passes' c).val = some r := by
  cases loop <;> exact forEachLoop_mono hle h

theorem run_spec (loop : VectorLoop) (hv : v.Sound) (hfits : loop.Fits v)
    (hbody : ∀ a x, (body a x).2.length = v.elementSize.toNat) {a' : α} {v' : CsVector}
    (h : (loop.run body passes (a, v)).val = some (a', v')) :
    (sweep body (loop.positions v.count.toNat) (a, v.toList)).1 = a' ∧
      v.Rewritten v' (sweep body (loop.positions v.count.toNat) (a, v.toList)).2 := by
  have hpasses : v.count.toNat < max passes (v.count.toNat + 1) := by omega
  obtain ⟨_, v₁, hval, hre⟩ := loop.sweeps hv hfits hbody (a := a) hpasses
  rw [loop.run_mono (le_max_left _ _) h] at hval
  obtain ⟨rfl, rfl⟩ := Prod.mk.inj (Option.some.inj hval)
  exact ⟨rfl, hre⟩

end VectorLoop

/-- A client makes calls and runs loops. -/
inductive VectorUse (α : Type)
  | call (call : StoreCall)
  | forEach (vector : Nat) (loop : VectorLoop) (body : α → List Byte → α × List Byte) (a : α)

inductive VectorUseAnswer (α : Type)
  | answer (answer : VectorAnswer)
  | result (a : α)

namespace CsVector

variable {α : Type} {elementSize : Nat → UInt32} {store store' : VectorStore} {s : Nat → Elements}

/-- A call, or a loop that ends and whose body leaves elements of the right size. -/
inductive UseStep : VectorStore → VectorUse α × VectorUseAnswer α → VectorStore → Prop
  | call {store store' call answer}
      (h : GrantedStep (fun store call => call.NoWrap store) store (call, answer) store') :
      UseStep store (.call call, .answer answer) store'
  | forEach {store i loop body a a' v' passes} (hfits : loop.Fits (store i))
      (hbody : ∀ a x, (body a x).2.length = (store i).elementSize.toNat)
      (h : (loop.run body passes (a, store i)).val = some (a', v')) :
      UseStep store (.forEach i loop body a, .result a') (Function.update store i v')

/-- The sequences: a loop is a sweep. -/
inductive SweepStep (elementSize : Nat → UInt32) :
    (Nat → Elements) → VectorUse α × VectorUseAnswer α → (Nat → Elements) → Prop
  | call {s s' call answer} (h : SequencesStep elementSize s (call, answer) s') :
      SweepStep elementSize s (.call call, .answer answer) s'
  | forEach {s : Nat → Elements} {i loop body a c}
      (h : sweep body (loop.positions (s i).length) (a, s i) = c) :
      SweepStep elementSize s (.forEach i loop body a, .result c.1) (Function.update s i c.2)

theorem Represents.use (h : Represents elementSize store s) {l : VectorUse α × VectorUseAnswer α}
    (hstep : UseStep store l store') : ∃ s', SweepStep elementSize s l s' ∧ Represents elementSize store' s' := by
  cases hstep with
  | call hcall =>
    obtain ⟨s', hact, hrep⟩ := h.step hcall
    exact ⟨s', .call hact, hrep⟩
  | @forEach i loop body a a' v' passes hfits hbody hval =>
    obtain ⟨hsound, hes, hlist⟩ := h i
    obtain ⟨rfl, hre⟩ := loop.run_spec hsound hfits hbody hval
    rw [← length_toList, hlist] at hre
    refine ⟨Function.update s i v'.toList, ?_, h.update hre.sound (hre.elementSize.trans hes)⟩
    rw [hre.toList, ← length_toList, hlist]
    exact .forEach rfl

theorem represents_of_uses (hpos : ∀ i, 0 < elementSize i) {ls : List (VectorUse α × VectorUseAnswer α)}
    (hrun : Run UseStep (fun i => vectorInit (elementSize i)) ls store) :
    ∃ s, Run (SweepStep elementSize) (fun _ => []) ls s ∧ Represents elementSize store s := by
  have hstep : ∀ (store : VectorStore) s (l : VectorUse α × VectorUseAnswer α) store',
      Represents elementSize store s → UseStep store l store' →
      ∃ s', SweepStep elementSize s l s' ∧ Represents elementSize store' s' :=
    fun _ _ _ _ hrep h => hrep.use h
  exact Run.simulate (Represents elementSize) hstep (represents_init hpos) hrun

end CsVector

/-- Over every run of calls and loops on the vectors, the calls act as on lists, and each loop as
a sweep over its positions. -/
theorem vector_loops_refine_sequence {α : Type} {elementSize : Nat → UInt32} (hpos : ∀ i, 0 < elementSize i)
    {ls : List (VectorUse α × VectorUseAnswer α)} {store : VectorStore}
    (hrun : Run CsVector.UseStep (fun i => vectorInit (elementSize i)) ls store) :
    ∃ s, Run (CsVector.SweepStep elementSize) (fun _ => []) ls s ∧ ∀ i, (store i).Shows (s i) := by
  obtain ⟨s, hsrun, hrep⟩ := CsVector.represents_of_uses hpos hrun
  refine ⟨s, hsrun, fun i => ?_⟩
  rw [← (hrep i).2.2]
  exact (hrep i).1.shows

def pushedThree : List StoreCall := [.on 0 (.push [1]), .on 0 (.push [2]), .on 0 (.push [3])]

/-- A body that adds the number of the visit to the element. -/
def addVisit (a : Nat) (x : List Byte) : Nat × List Byte := (a + 1, [x.getD 0 0 + UInt8.ofNat a])

def VectorUse.callLabel (l : StoreCall × VectorAnswer) : VectorUse Nat × VectorUseAnswer Nat :=
  (.call l.1, .answer l.2)

/-- The vector after `pushedThree`, and the loop over its last two elements. -/
lemma pushedThree_run : ∃ answers : List VectorAnswer, ∃ ls : List (VectorUse Nat × VectorUseAnswer Nat),
    ∃ store v', Run CsVector.UseStep (fun _ => vectorInit 1) ls store ∧
    ls.map Prod.snd = answers.map VectorUseAnswer.answer ∧ (store 0).count = 3 ∧
    (VectorLoop.rangeR 1 3).Fits (store 0) ∧
    (∀ a x, (addVisit a x).2.length = (store 0).elementSize.toNat) ∧
    ((VectorLoop.rangeR 1 3).run addVisit 4 (0, store 0)).val = some (2, v') := by
  have hview : (runCalls grantedStoreCall (fun _ => vectorInit 1) pushedThree).map (fun r => decide
      ((r.2 0).count = 3 ∧ (r.2 0).elementSize = 1 ∧
        (r.2 0).data.map (fun d => (d.addr, d.size)) = some (16, 33) ∧
        ((VectorLoop.rangeR 1 3).run addVisit 4 (0, r.2 0)).val.map (fun c => (c.1, c.2.toList)) =
          some (2, [[1], [3], [3]]))) = some true := by decide +kernel
  obtain ⟨ls, store, hrun, hview⟩ := Run.exists_of_runCalls (fun _ _ _ _ h => grantedStoreCall_step h) hview
  obtain ⟨hcount, hes, hdata, hloop⟩ := of_decide_eq_true hview
  obtain ⟨⟨a, v'⟩, hval, heq⟩ := Option.map_eq_some_iff.mp hloop
  obtain ⟨rfl, _⟩ := Prod.mk.inj heq
  have hplaced : (store 0).Placed := by
    intro d hd
    rw [hd, Option.map_some, Option.some.injEq, Prod.mk.injEq] at hdata
    rw [hes, hdata.1, hdata.2]
    decide
  refine ⟨ls.map Prod.snd, ls.map VectorUse.callLabel, store, v', hrun.map _ fun _ _ _ h => .call h, ?_, hcount,
    ⟨?_, ?_, hplaced⟩, fun _ _ => ?_, hval⟩
  · rw [List.map_map, List.map_map]
    rfl
  · rw [hcount]
    decide
  · rw [hcount]
  · rw [hes]
    rfl

theorem vector_loops_refine_sequence_last : ∃ ls, ∃ store : VectorStore, ∃ answers : List VectorAnswer,
    ls.map Prod.snd = answers.map VectorUseAnswer.answer ++ [.result 2] ∧
    ∃ s, Run (CsVector.SweepStep fun _ => 1) (fun _ => []) ls s ∧ ∀ i, (store i).Shows (s i) := by
  obtain ⟨answers, ls, store, v', hrun, hanswers, _, hfits, hbody, hloop⟩ := pushedThree_run
  refine ⟨_, _, answers, ?_, vector_loops_refine_sequence (fun _ => by decide)
    (hrun.snoc (.forEach hfits hbody hloop))⟩
  rw [List.map_append, hanswers]
  rfl

/-- What a loop does to a vector: `body` is given the elements at `positions` in order, as they are
before the loop, and changes no others. -/
structure VectorLoop.Visits {α : Type} (v : CsVector) (body : α → List Byte → α × List Byte) (a : α)
    (positions : List Nat) (r : Logged UInt64 (Option (α × CsVector))) : Prop where
  pointers : List.Forall₂ v.At r.log positions
  inside : ∀ var ∈ r.log, ∃ d ∈ v.data, (var - d.addr).toNat + v.elementSize.toNat ≤ d.size
  result : ∃ v', r.val = some ((positions.filterMap fun k => v.toList[k]?).foldl (fun a x => (body a x).1) a, v') ∧
    (∀ k, k ∉ positions → v'.toList[k]? = v.toList[k]?) ∧
    ∀ f : List Byte → List Byte, (∀ a x, (body a x).2 = f x) →
      ∀ k ∈ positions, v'.toList[k]? = v.toList[k]?.map f

/-- After every run of calls and loops, each loop ends within one test more than there are
elements, and goes over the elements of its range in order, all of them in the buffer. -/
theorem vector_loop_visits_range {α : Type} {elementSize : Nat → UInt32} (hpos : ∀ i, 0 < elementSize i)
    {ls : List (VectorUse α × VectorUseAnswer α)} {store : VectorStore}
    (hrun : Run CsVector.UseStep (fun i => vectorInit (elementSize i)) ls store)
    {i : Nat} {loop : VectorLoop} {body : α → List Byte → α × List Byte} {a : α} {passes : Nat}
    (hfits : loop.Fits (store i)) (hbody : ∀ a x, (body a x).2.length = (store i).elementSize.toNat)
    (hpasses : (store i).count.toNat < passes) :
    VectorLoop.Visits (store i) body a (loop.positions (store i).count.toNat)
      (loop.run body passes (a, store i)) := by
  obtain ⟨_, _, hrep⟩ := CsVector.represents_of_uses hpos hrun
  have hsound : (store i).Sound := (hrep i).1
  have hnodup := loop.nodup_positions (store i).count.toNat
  obtain ⟨hlog, v', hval, hre⟩ := loop.sweeps hsound hfits hbody (a := a) hpasses
  refine ⟨hlog, fun var hmem => ?_, v', ?_, fun k hk => ?_, fun f hf k hk => ?_⟩
  · obtain ⟨n, hn, rfl⟩ := List.mem_iff_getElem.mp hmem
    have hn' := hlog.length_eq ▸ hn
    exact (hlog.get hn hn').inside hsound (loop.lt_of_mem_positions hfits (List.getElem_mem hn'))
  · rw [hval, fst_sweep hnodup]
  · rw [hre.toList, getElem?_sweep_of_notMem hk]
  · rw [hre.toList, getElem?_sweep_map hf hnodup hk]

theorem vector_loop_visits_range_last : ∃ store : VectorStore, (store 0).count = 3 ∧
    VectorLoop.Visits (store 0) addVisit 0 [2, 1] ((VectorLoop.rangeR 1 3).run addVisit 4 (0, store 0)) := by
  obtain ⟨_, _, store, _, hrun, _, hcount, hfits, hbody, _⟩ := pushedThree_run
  exact ⟨store, hcount, vector_loop_visits_range (fun _ => by decide) hrun hfits hbody
    (by rw [hcount]; decide)⟩

end CStructures
