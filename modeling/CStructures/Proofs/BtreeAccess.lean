import CStructures.Proofs.BtreeRefinement

/-!
# Accesses of an erasure

`btree_erase_index` moves one entry more than there is behind the erased one. In a buffer
that is exactly full the additional entry lies beyond the end. The searches before an
erasure only read entries.
-/

namespace CStructures
open Lib

/-- Every byte of a range lies in a buffer of `size` bytes. -/
def RangeInside (size off len : Nat) : Prop := ∀ j < len, off + j < size

lemma rangeInside_iff {size off len : Nat} : RangeInside size off len ↔ len = 0 ∨ off + len ≤ size := by
  constructor
  · intro h
    by_cases hlen : len = 0
    · exact Or.inl hlen
    · have := h (len - 1) (by omega)
      omega
  · intro h j hj
    omega

def Access.Inside (size : Nat) : Access → Prop
  | .read off len => RangeInside size off len
  | .write off len => RangeInside size off len
  | .move _ _ dst src len => RangeInside size src len ∧ RangeInside size dst len

namespace Btree

variable {b : Btree} {idx : UInt32}

/-- The accesses stay inside the `capacity * (sizeof(cs_btree_key) + value_size)` bytes of
the buffer. -/
def AccessesInside (b : Btree) (log : List Access) : Prop :=
  ∀ a ∈ log, a.Inside (b.capacity.toNat * (4 + b.valueSize.toNat))

lemma accessesInside_append {log log' : List Access} :
    b.AccessesInside (log ++ log') ↔ b.AccessesInside log ∧ b.AccessesInside log' :=
  List.forall_mem_append

/-- There is an entry behind the used ones, or one of the products for the values wraps. -/
def KeepsInside (b : Btree) (idx : UInt32) : Prop :=
  b.count.toNat < b.capacity.toNat ∨ 2 ^ 32 ≤ b.valueSize.toNat * (idx.toNat + 1) ∨
    2 ^ 32 ≤ b.valueSize.toNat * (b.count.toNat - idx.toNat)

lemma readKey_inside {i : Nat} (hi : i < b.capacity.toNat) : b.AccessesInside (b.readKey i).log := by
  have hmul := Nat.mul_add b.capacity.toNat 4 b.valueSize.toNat
  intro a ha
  rw [List.mem_singleton.mp ha]
  refine rangeInside_iff.mpr (Or.inr ?_)
  rw [keyOffset]
  omega

lemma readValue_inside {i : UInt32} (hi : i.toNat < b.capacity.toNat) :
    b.AccessesInside (b.readValue (b.valueOffset i)).log := by
  have hmul := Nat.mul_add b.capacity.toNat 4 b.valueSize.toNat
  have hcomm := Nat.mul_comm b.capacity.toNat b.valueSize.toNat
  have hstride := stride_le b.valueSize.toNat hi
  have hwrap : (b.valueSize * i).toNat ≤ b.valueSize.toNat * i.toNat := by
    rw [UInt32.toNat_mul]
    exact Nat.mod_le _ _
  intro a ha
  rw [List.mem_singleton.mp ha]
  refine rangeInside_iff.mpr (Or.inr ?_)
  rw [valueOffset, valueOffsetCap]
  omega

/-- The binary search only reads stored keys, and ends at one or behind the last. -/
lemma lowerBoundLoop_reads (key : UInt32) (fuel : Nat) {s : Nat × UInt32}
    (hinside : s.1 + s.2.toNat ≤ b.count.toNat) :
    (∀ a ∈ (lowerBoundLoop b key fuel s.1 s.2).log, ∃ i < b.count.toNat, a = .read (keyOffset i) 4) ∧
      (lowerBoundLoop b key fuel s.1 s.2).val ≤ b.count.toNat := by
  induction fuel generalizing s with
  | zero => exact ⟨List.forall_mem_nil _, by change s.1 ≤ _; omega⟩
  | succ fuel ih =>
    by_cases hpos : 0 < s.2.toNat
    · have hpass := halve_inside (p := fun i => b.keys i < key) (s := stretch s) hinside hpos
      rw [← stretch_lowerBoundPass hpos] at hpass
      obtain ⟨hlog, hval⟩ := ih hpass
      rw [lowerBoundLoop_of_pos fuel hpos, Logged.log_bind, Logged.val_bind, log_lowerBoundPass]
      refine ⟨List.forall_mem_cons.mpr ⟨?_, hlog⟩, hval⟩
      exact ⟨_, middle_lt (s := stretch s) hinside hpos, rfl⟩
    · rw [lowerBoundLoop_of_zero _ (Nat.eq_zero_of_not_pos hpos)]
      exact ⟨List.forall_mem_nil _, by change s.1 ≤ _; omega⟩

lemma findLowerBound_reads (key : UInt32) :
    (∀ a ∈ (btreeFindLowerBound b key).log, ∃ i < b.count.toNat, a = .read (keyOffset i) 4) ∧
      (btreeFindLowerBound b key).val ≤ b.count.toNat :=
  lowerBoundLoop_reads (s := (0, b.count)) key _ (Nat.zero_add _).le

lemma isKeyAt_reads (p : Nat) (key : UInt32) :
    ∀ a ∈ (isKeyAt b p key).log, ∃ i < b.count.toNat, a = .read (keyOffset i) 4 := by
  unfold isKeyAt
  split_ifs with hp
  · intro a ha
    exact ⟨p, hp, List.mem_singleton.mp ha⟩
  · exact List.forall_mem_nil _

lemma keyReads_inside (hcap : b.count.toNat ≤ b.capacity.toNat) {log : List Access}
    (h : ∀ a ∈ log, ∃ i < b.count.toNat, a = .read (keyOffset i) 4) : b.AccessesInside log := by
  intro a ha
  obtain ⟨i, hi, rfl⟩ := h a ha
  exact readKey_inside (by omega) _ (List.mem_singleton.mpr rfl)

lemma matchingValueFrom_inside (hcap : b.count.toNat ≤ b.capacity.toNat) (value : List Byte)
    (remaining : Nat) (i : UInt32) (hi : i.toNat + remaining = b.count.toNat) :
    b.AccessesInside (matchingValueFrom b value remaining i).log ∧
      ((matchingValueFrom b value remaining i).val = 0xFFFFFFFF ∨
        (matchingValueFrom b value remaining i).val.toNat < b.count.toNat) := by
  induction remaining generalizing i with
  | zero => exact ⟨List.forall_mem_nil _, Or.inl rfl⟩
  | succ remaining ih =>
    have hsucc : (i + 1).toNat = i.toNat + 1 := toNat_succ (b := b.count) (by omega)
    obtain ⟨hlog, hval⟩ := ih (i + 1) (by omega)
    unfold matchingValueFrom
    rw [Logged.log_bind, accessesInside_append, Logged.val_bind, Logged.log_ite, Logged.val_ite]
    refine ⟨⟨readValue_inside (by omega), ?_⟩, ?_⟩
    · split_ifs
      · exact List.forall_mem_nil _
      · exact hlog
    · split_ifs
      · exact Or.inr (by change i.toNat < _; omega)
      · exact hval

/-- An erasure stays inside the buffer exactly when one more entry fits behind the used
ones, unless a product wraps. -/
theorem eraseIndex_inside (hidx : idx.toNat < b.count.toNat) (hcap : b.count.toNat ≤ b.capacity.toNat) :
    b.AccessesInside (btreeEraseIndex b idx).log ↔ b.KeepsInside idx := by
  have hn : (b.count - idx).toNat = b.count.toNat - idx.toNat := toNat_sub_of_le hidx.le
  have hidx1 : (idx + 1).toNat = idx.toNat + 1 := toNat_succ hidx
  have hlog : (btreeEraseIndex b idx).log =
      [.read (keyOffset idx.toNat) 4,
        .move .keys (b.count - idx).toNat (keyOffset idx.toNat) (keyOffset (idx.toNat + 1))
          ((b.count - idx).toNat * 4),
        .move .values (b.count - idx).toNat (b.valueOffset idx) (b.valueOffset (idx + 1))
          ((b.count - idx) * b.valueSize).toNat] := rfl
  have hbefore : (b.valueSize * idx).toNat = b.valueSize.toNat * idx.toNat % 2 ^ 32 :=
    UInt32.toNat_mul _ _
  have hfrom : (b.valueSize * (idx + 1)).toNat =
      (b.valueSize.toNat * idx.toNat + b.valueSize.toNat) % 2 ^ 32 := by
    rw [UInt32.toNat_mul, hidx1, Nat.mul_add, Nat.mul_one]
  have hlen : ((b.count - idx) * b.valueSize).toNat =
      b.valueSize.toNat * (b.count.toNat - idx.toNat) % 2 ^ 32 := by
    rw [UInt32.toNat_mul, hn, Nat.mul_comm]
  have hsize : b.capacity.toNat * (4 + b.valueSize.toNat) =
      4 * b.capacity.toNat + (b.valueSize.toNat * idx.toNat +
        b.valueSize.toNat * (b.count.toNat - idx.toNat) +
        b.valueSize.toNat * (b.capacity.toNat - b.count.toNat)) := by
    rw [← Nat.mul_add, ← Nat.mul_add, Nat.mul_add, Nat.mul_comm _ 4, Nat.mul_comm b.capacity.toNat]
    congr 2
    omega
  have hone : b.valueSize.toNat ≤ b.valueSize.toNat * (b.count.toNat - idx.toNat) :=
    Nat.le_mul_of_pos_right _ (by omega)
  have hspare : b.count.toNat < b.capacity.toNat →
      b.valueSize.toNat ≤ b.valueSize.toNat * (b.capacity.toNat - b.count.toNat) :=
    fun h => Nat.le_mul_of_pos_right _ (by omega)
  have hfull : b.count.toNat = b.capacity.toNat →
      b.valueSize.toNat * (b.capacity.toNat - b.count.toNat) = 0 := by
    intro h
    rw [h, Nat.sub_self, Nat.mul_zero]
  have hzero : b.valueSize.toNat = 0 → b.valueSize.toNat * idx.toNat = 0 ∧
      b.valueSize.toNat * (b.count.toNat - idx.toNat) = 0 := by
    intro h
    rw [h, Nat.zero_mul, Nat.zero_mul]
    exact ⟨rfl, rfl⟩
  have hword := b.valueSize.toNat_lt
  simp only [AccessesInside, hlog, List.forall_mem_cons, List.not_mem_nil, false_imp_iff,
    implies_true, Access.Inside, rangeInside_iff, and_true, keyOffset, valueOffset, valueOffsetCap, hbefore, hfrom, hlen, hn, hsize]
  rw [KeepsInside, Nat.mul_add b.valueSize.toNat, Nat.mul_one]
  clear hlog hbefore hfrom hlen hsize
  -- the products are atoms from here on
  generalize b.valueSize.toNat * idx.toNat = before at *
  generalize b.valueSize.toNat * (b.count.toNat - idx.toNat) = moved at *
  generalize b.valueSize.toNat * (b.capacity.toNat - b.count.toNat) = spare at *
  constructor
  · intro h
    by_contra hk
    have hmoved : moved % 2 ^ 32 = moved := Nat.mod_eq_of_lt (by omega)
    have hsource : (before + b.valueSize.toNat) % 2 ^ 32 = before + b.valueSize.toNat :=
      Nat.mod_eq_of_lt (by omega)
    rw [hmoved, hsource] at h
    omega
  · intro h
    omega

end Btree

/-- A call of the interface, or an erasure through a pointer to a value or in a for-loop. -/
inductive BtreeAction
  | call (call : BtreeCall) (answer : AllocAnswer)
  | eraseInternalValue (off : Nat)
  | eraseCurrentItem (idx : UInt32)

namespace Btree

variable {b : Btree} {action : BtreeAction}

def act (b : Btree) : BtreeAction → Btree
  | .call call answer => (btreeCall b answer call).val.2
  | .eraseInternalValue off => (btreeEraseInternalValue b off).val.2
  | .eraseCurrentItem idx => (btreeEraseCurrentItemInForLoop b idx).val.2

def eraseAccesses (b : Btree) : BtreeAction → List Access
  | .call (.erase key) _ => (btreeErase b key).log
  | .call (.eraseValue value) _ => (btreeEraseValue b value).log
  | .call _ _ => []
  | .eraseInternalValue off => (btreeEraseInternalValue b off).log
  | .eraseCurrentItem idx => (btreeEraseCurrentItemInForLoop b idx).log

def erasedIndex (b : Btree) : BtreeAction → Option UInt32
  | .call (.erase key) _ =>
    let lowerBound := (btreeFindLowerBound b key).val
    if (isKeyAt b lowerBound key).val then some (UInt32.ofNat lowerBound) else none
  | .call (.eraseValue value) _ =>
    let idx := (btreeFindIndexOfMatchingValue b value).val
    if idx = 0xFFFFFFFF then none else some idx
  | .call _ _ => none
  | .eraseInternalValue off => some (b.valueToIdx off)
  | .eraseCurrentItem idx => some idx

/-- The assertions of the functions, and pointers and indices of stored entries. -/
def Allowed (b : Btree) : BtreeAction → Prop
  | .call call _ => call.Fits b
  | .eraseInternalValue off =>
    0 < b.valueSize ∧ ∃ i : UInt32, i.toNat < b.count.toNat ∧ off = b.valueOffset i
  | .eraseCurrentItem idx => idx.toNat < b.count.toNat

lemma valueToIdx_lt {i : UInt32} (hi : i.toNat < b.count.toNat) :
    (b.valueToIdx (b.valueOffset i)).toNat < b.count.toNat := by
  have hoff : b.valueOffset i - b.valueOffset 0 = (b.valueSize * i).toNat := by
    simp only [valueOffset, valueOffsetCap, UInt32.mul_zero]
    change _ - (_ + 0) = _
    omega
  have hle : (b.valueSize * i).toNat / b.valueSize.toNat ≤ i.toNat := by
    rw [UInt32.toNat_mul]
    calc b.valueSize.toNat * i.toNat % 2 ^ 32 / b.valueSize.toNat
        ≤ b.valueSize.toNat * i.toNat / b.valueSize.toNat := Nat.div_le_div_right (Nat.mod_le _ _)
      _ ≤ i.toNat := Nat.div_le_of_le_mul le_rfl
  rw [valueToIdx, hoff, toNat_ofNat_of_le hle]
  omega

theorem eraseAccesses_inside (hallowed : b.Allowed action) (hcap : b.count.toNat ≤ b.capacity.toNat) :
    b.AccessesInside (b.eraseAccesses action) ↔ ∀ idx ∈ b.erasedIndex action, b.KeepsInside idx := by
  have hnil : b.AccessesInside [] := List.forall_mem_nil _
  cases action with
  | call call answer =>
    cases call with
    | erase key =>
      simp only [eraseAccesses, erasedIndex, btreeErase, Logged.log_bind, accessesInside_append,
        Logged.log_ite]
      rw [and_iff_right (keyReads_inside hcap (findLowerBound_reads key).1),
        and_iff_right (keyReads_inside hcap (isKeyAt_reads _ key)), val_isKeyAt]
      split_ifs with hfound
      · have hlt := (of_decide_eq_true hfound).1
        have hto := toNat_ofNat_of_le hlt.le
        rw [Logged.log_pure, List.append_nil]
        simpa using eraseIndex_inside (by omega) hcap
      · simpa using hnil
    | eraseValue value =>
      obtain ⟨hlog, hval⟩ := matchingValueFrom_inside hcap value b.count.toNat 0 (Nat.zero_add _)
      simp only [eraseAccesses, erasedIndex, btreeEraseValue, Logged.log_bind, accessesInside_append,
        Logged.log_ite]
      rw [and_iff_right (show b.AccessesInside (btreeFindIndexOfMatchingValue b value).log from hlog)]
      split_ifs with hnone
      · simpa using hnil
      · have hlt : (btreeFindIndexOfMatchingValue b value).val.toNat < b.count.toNat :=
          hval.resolve_left hnone
        simpa using eraseIndex_inside hlt hcap
    | _ => simpa [eraseAccesses, erasedIndex] using hnil
  | eraseInternalValue off =>
    obtain ⟨_, i, hi, rfl⟩ := hallowed
    simpa [eraseAccesses, erasedIndex, btreeEraseInternalValue] using
      eraseIndex_inside (valueToIdx_lt hi) hcap
  | eraseCurrentItem idx =>
    have hlog : b.eraseAccesses (.eraseCurrentItem idx) = (btreeEraseIndex b idx).log := List.append_nil _
    rw [hlog]
    simpa [erasedIndex] using eraseIndex_inside hallowed hcap

/-- One action that satisfies `P`, on a btree whose count does not exceed its capacity and
whose buffer may have any bytes beyond the entries. -/
def ActStep (P : Btree → BtreeAction → Prop) (b : Btree) (action : BtreeAction) (b' : Btree) : Prop :=
  ∃ b₁, Scrambled b b₁ ∧ b₁.count.toNat ≤ b₁.capacity.toNat ∧ b₁.Allowed action ∧ P b₁ action ∧
    b' = b₁.act action

def InsideStep : Btree → BtreeAction → Btree → Prop :=
  ActStep fun b action => b.AccessesInside (b.eraseAccesses action)

def SpaciousStep : Btree → BtreeAction → Btree → Prop :=
  ActStep fun b action => ∀ idx ∈ b.erasedIndex action, b.KeepsInside idx

lemma insideStep_iff {b b' : Btree} : InsideStep b action b' ↔ SpaciousStep b action b' := by
  constructor
  · rintro ⟨b₁, hs, hcap, hallowed, hinside, hact⟩
    exact ⟨b₁, hs, hcap, hallowed, (eraseAccesses_inside hallowed hcap).mp hinside, hact⟩
  · rintro ⟨b₁, hs, hcap, hallowed, hspacious, hact⟩
    exact ⟨b₁, hs, hcap, hallowed, (eraseAccesses_inside hallowed hcap).mpr hspacious, hact⟩

end Btree

/-- In a run of calls and erasures, all accesses of the erasures are inside the buffer if
and only if no erasure is made on a buffer that is exactly full, except where one of the
products for the values wraps. -/
theorem btree_erasures_inside {valueSize : UInt32} {actions : List BtreeAction} {b : Btree} :
    Run Btree.InsideStep (btreeInit valueSize) actions b ↔
      Run Btree.SpaciousStep (btreeInit valueSize) actions b :=
  ⟨Run.mono fun _ _ _ h => Btree.insideStep_iff.mp h, Run.mono fun _ _ _ h => Btree.insideStep_iff.mpr h⟩

def insideAct (b : Btree) : BtreeAction → Option Btree
  | .call call answer =>
    if b.count ≤ b.capacity ∧ call.Fits b ∧ b.erasedIndex (.call call answer) = none then
      some (b.act (.call call answer))
    else none
  | _ => none

lemma insideAct_step (b : Btree) (action : BtreeAction) (b' : Btree)
    (h : insideAct b action = some b') : Btree.InsideStep b action b' := by
  cases action with
  | call call answer =>
    unfold insideAct at h
    dsimp only at h
    split_ifs at h with hok
    obtain ⟨hcap, hfits, hnone⟩ := hok
    refine Btree.insideStep_iff.mpr
      ⟨b, .refl b, UInt32.le_iff_toNat_le.mp hcap, hfits, ?_, (Option.some.inj h).symm⟩
    intro idx hidx
    rw [hnone] at hidx
    cases hidx
  | _ => cases h

def fillActions : List BtreeAction :=
  (List.range 32).map fun k => .call (.insertNew (UInt32.ofNat k) (leBytes 4 k)) (some zeroGrant)

/-- The btree is full after 32 insertions, and the erasure of the first key reads beyond the
end of the buffer. -/
theorem full_btree_erase_outside : ∃ b : Btree, Run Btree.InsideStep (btreeInit 4) fillActions b ∧
    b.count = 32 ∧ b.capacity = 32 ∧ b.Allowed (.call (.erase 0) none) ∧
    b.erasedIndex (.call (.erase 0) none) = some 0 ∧
    ¬b.AccessesInside (b.eraseAccesses (.call (.erase 0) none)) := by
  have hfields : (fillActions.foldlM insideAct (btreeInit 4)).map
      (fun b => (b.count, b.capacity, b.valueSize, b.erasedIndex (.call (.erase 0) none))) =
        some (32, 32, 4, some 0) := by decide +kernel
  obtain ⟨b, hrun, hb⟩ := Run.exists_of_foldlM insideAct_step hfields
  obtain ⟨hcount, hcap, hvs, hidx⟩ : b.count = 32 ∧ b.capacity = 32 ∧ b.valueSize = 4 ∧
      b.erasedIndex (.call (.erase 0) none) = some 0 := by
    simpa only [Prod.mk.injEq] using hb
  refine ⟨b, hrun, hcount, hcap, trivial, hidx, ?_⟩
  have hallowed : b.Allowed (.call (.erase 0) none) := trivial
  have hle : b.count.toNat ≤ b.capacity.toNat :=
    (congrArg UInt32.toNat (hcount.trans hcap.symm)).le
  rw [Btree.eraseAccesses_inside hallowed hle, hidx]
  intro h
  have hkeeps := h 0 rfl
  rw [Btree.KeepsInside, hcount, hcap, hvs] at hkeeps
  revert hkeeps
  decide

end CStructures
