import CStructures.Proofs.BtreeRefinement

/-!
# Failed allocations of the btree

A request for a larger buffer comes before any change, so a failure leaves the btree as it
was. A request for a smaller one comes last, so after a failure the old buffer goes on under
the new capacity, and holds more than that.
-/

namespace CStructures
open Lib

/-- The abstract map, when memory may run out. -/
inductive FallibleMapStep : KeyMap → BtreeCall × BtreeAnswer → KeyMap → Prop
  | granted {m l m'} (h : SortedMapStep m l m') : FallibleMapStep m l m'
  | insertNewOom {m k v} : FallibleMapStep m (.insertNew k v, .status .oom) m
  | insertOrGetOom {m k v} : FallibleMapStep m (.insertOrGet k v, .statusValue .oom none) m
  | reserveOom {m size} : FallibleMapStep m (.reserve size, .status .oom) m

namespace Btree

variable {b b' : Btree} {m : KeyMap} {key : UInt32} {value : List Byte} {answer : AllocAnswer}

section Value

variable {d : Block} {n : UInt32}

lemma val_realloc_oom (h : b.data = none ∨ clampCapacity n ≥ b.capacity) :
    (btreeRealloc b n none).val = (.oom, b) := by
  unfold btreeRealloc
  cases hdata : b.data with
  | none => rfl
  | some d =>
    have hn : clampCapacity n ≥ b.capacity := by
      apply h.resolve_left
      rw [hdata]
      exact Option.some_ne_none d
    simp only
    rw [if_pos hn]
    rfl

lemma val_realloc_failedShrink (h : b.data = some d) (hn : ¬clampCapacity n ≥ b.capacity) :
    (btreeRealloc b n none).val =
      (.ok, b.withBuffer (b.shiftValues d (clampCapacity n)) (clampCapacity n)) := by
  have hbytes : b.bytes = d.bytes := by simp only [bytes, h]
  unfold btreeRealloc
  simp only [h]
  rw [if_neg hn]
  simp only [Logged.val_bind, Logged.val_pure, moveValues, setBytes, h, hbytes, Option.map_some]
  rfl

end Value

/-- When a shrink fails, the values have moved to their place for the smaller capacity in a
buffer that has kept its size. -/
theorem failedShrink_spec (hb : b.Sound) {d : Block} (hdata : b.data = some d) {n : UInt32}
    (hcount : b.count.toNat ≤ n.toNat) (hn : ¬clampCapacity n ≥ b.capacity) :
    let b' := b.withBuffer (b.shiftValues d (clampCapacity n)) (clampCapacity n)
    b'.Sound ∧ SameEntries b b' := by
  have hle := (le_clampCapacity n).1
  set cap' := clampCapacity n with hcap'
  have hcb := hb.count_le
  have hfit := hb.bounds.valuesFit
  have hbytes : b.bytes = d.bytes := by simp only [bytes, hdata]
  have hshrink : cap'.toNat < b.capacity.toNat := by
    have := UInt32.le_iff_toNat_le.not.mp hn
    omega
  have hsame : SameEntries b (b.withBuffer (b.shiftValues d cap') cap') := by
    apply same_shiftValues hfit (by omega) hcb <;> intro i _
    · rw [hbytes]
    · rw [vals, hbytes]
  have hbounds : (b.withBuffer (b.shiftValues d cap') cap').InBounds := by
    have hcapacity := hb.bounds.capacity
    refine ⟨?_, lt_of_le_of_lt ?_ hfit⟩
    · change cap'.toNat < 2 ^ 31
      omega
    · exact Nat.mul_le_mul_right b.valueSize.toNat hshrink.le
  have hsize : cap'.toNat * (4 + b.valueSize.toNat) ≤ d.size :=
    (Nat.mul_le_mul_right _ hshrink.le).trans (hb.buffer d hdata)
  exact ⟨hb.withBuffer (by omega) hbounds hsize hsame, hsame⟩

lemma grow_none (hb : b.Sound) : (btreeGrow b none).val = if b.count = b.capacity then (.oom, b) else (.ok, b) := by
  unfold btreeGrow
  rw [Logged.val_ite]
  by_cases hfull : b.count = b.capacity
  · rw [if_pos hfull, if_pos hfull]
    apply val_realloc_oom
    right
    have hdouble : (b.capacity * btreeExpandFactor).toNat = b.capacity.toNat * 2 := by
      have hsmall := hb.bounds.capacity
      rw [UInt32.toNat_mul]
      change b.capacity.toNat * 2 % 2 ^ 32 = _
      omega
    have hle := (le_clampCapacity (b.capacity * btreeExpandFactor)).1
    apply UInt32.le_iff_toNat_le.mpr
    omega
  · rw [if_neg hfull, if_neg hfull]
    rfl

lemma grow_of_room (hroom : b.count ≠ b.capacity) (answer answer' : AllocAnswer) :
    btreeGrow b answer = btreeGrow b answer' := by
  unfold btreeGrow
  rw [if_neg hroom, if_neg hroom]

theorem insertNew_oom (h : (btreeInsertNew b key value answer).val.1 = .oom) :
    (btreeInsertNew b key value answer).val.2 = b := by
  rcases grow_cases b answer with ⟨grown, hgrow⟩ | hgrow
  · rw [insertNew_grown hgrow] at h
    split_ifs at h
  · rw [insertNew_refused hgrow]

theorem insertOrGet_oom (h : (btreeInsertOrGet b key value answer).val.1 = .oom) :
    (btreeInsertOrGet b key value answer).val.2 = (none, b) := by
  rcases grow_cases b answer with ⟨grown, hgrow⟩ | hgrow
  · rw [insertOrGet_grown hgrow] at h
    split_ifs at h
  · rw [insertOrGet_refused hgrow]

theorem reserve_oom {size : UInt32} (h : (btreeReserve b size answer).val.1 = .oom) :
    (btreeReserve b size answer).val.2 = b := by
  unfold btreeReserve at h ⊢
  rw [Logged.val_ite] at h ⊢
  split_ifs at h ⊢
  rcases realloc_cases b size answer with ⟨b', hrealloc⟩ | hrealloc
  · rw [hrealloc] at h
    cases h
  · rw [hrealloc]

/-- The calls that report a failed allocation leave everything as it was. -/
theorem call_oom (b : Btree) (answer : AllocAnswer) :
    (∀ key value, (btreeInsertNew b key value answer).val.1 = .oom →
      (btreeInsertNew b key value answer).val.2 = b) ∧
    (∀ key value, (btreeInsertOrGet b key value answer).val.1 = .oom →
      (btreeInsertOrGet b key value answer).val.2 = (none, b)) ∧
    ∀ size, (btreeReserve b size answer).val.1 = .oom → (btreeReserve b size answer).val.2 = b :=
  ⟨fun _ _ => insertNew_oom, fun _ _ => insertOrGet_oom, fun _ => reserve_oom⟩

theorem Represents.compact_none (h : b.Represents m) (hpos : b.count ≠ 0) :
    let b' := (btreeCompact b none).val
    b'.Represents m ∧ b'.data.map Block.addr = b.data.map Block.addr ∧
      b'.data.map Block.size = b.data.map Block.size ∧
      b'.capacity = min b.capacity (clampCapacity b.count) := by
  have hcb := h.sound.count_le
  have hcount : 0 < b.count.toNat := by
    have := UInt32.toNat_inj.not.mpr hpos
    change b.count.toNat ≠ 0 at this
    omega
  obtain ⟨d, hdata⟩ := Option.isSome_iff_exists.mp (h.isSome hcount)
  have hval : (btreeCompact b none).val = (btreeRealloc b b.count none).val.2 := by
    unfold btreeCompact
    rw [if_neg hpos]
    rfl
  rw [hval]
  by_cases hn : clampCapacity b.count ≥ b.capacity
  · rw [val_realloc_oom (Or.inr hn)]
    exact ⟨h, rfl, rfl, (min_eq_left hn).symm⟩
  · have hlt : clampCapacity b.count < b.capacity := lt_of_not_ge hn
    rw [val_realloc_failedShrink hdata hn]
    obtain ⟨hs, hsame⟩ := failedShrink_spec h.sound hdata le_rfl hn
    refine ⟨h.sameEntries hs hsame, ?_, ?_, (min_eq_right hlt.le).symm⟩
    · rw [hdata]
      rfl
    · rw [hdata]
      rfl

/-- One call with whatever the allocator answers, on a buffer with any bytes beyond the
entries, into a state within the bounds. -/
def AnsweredStep (b : Btree) (l : BtreeCall × BtreeAnswer) (b' : Btree) : Prop :=
  ∃ b₁ answer, Scrambled b b₁ ∧ l.1.Fits b₁ ∧ (btreeCall b₁ answer l.1).val = (l.2, b') ∧ b'.InBounds

/-- A call whose request fails acts and answers like the map, or reports the failure. -/
theorem Represents.failedCall (h : b.Represents m) {call : BtreeCall} (hfits : call.Fits b) :
    let r := (btreeCall b none call).val
    r.2.InBounds → ∃ m', FallibleMapStep m (call, r.1) m' ∧ r.2.Represents m' := by
  have hgranted : btreeCall b none call = btreeCall b (some zeroGrant) call →
      let r := (btreeCall b none call).val
      r.2.InBounds → ∃ m', FallibleMapStep m (call, r.1) m' ∧ r.2.Represents m' := by
    intro heq
    rw [heq]
    intro r hbounds
    obtain ⟨m', hstep, hrep⟩ := h.call hfits zeroGrant hbounds
    exact ⟨m', .granted hstep, hrep⟩
  have hrefused : ∀ answer, (btreeCall b none call).val = (answer, b) →
      FallibleMapStep m (call, answer) m →
      let r := (btreeCall b none call).val
      r.2.InBounds → ∃ m', FallibleMapStep m (call, r.1) m' ∧ r.2.Represents m' := by
    intro answer hval hstep
    rw [hval]
    exact fun _ => ⟨m, hstep, h⟩
  cases call with
  | insertNew key value =>
    by_cases hfull : b.count = b.capacity
    · have hval : (btreeInsertNew b key value none).val = (.oom, b) :=
        insertNew_refused ((grow_none h.sound).trans (if_pos hfull))
      refine hrefused (.status .oom) ?_ .insertNewOom
      exact congrArg (fun r => (BtreeAnswer.status r.1, r.2)) hval
    · apply hgranted
      simp only [btreeCall, btreeInsertNew, grow_of_room hfull none (some zeroGrant)]
  | insertOrGet key value =>
    by_cases hfull : b.count = b.capacity
    · have hval : (btreeInsertOrGet b key value none).val = (.oom, none, b) :=
        insertOrGet_refused ((grow_none h.sound).trans (if_pos hfull))
      refine hrefused (.statusValue .oom none) ?_ .insertOrGetOom
      exact congrArg (fun r => (BtreeAnswer.statusValue r.1 (r.2.1.map r.2.2.deref), r.2.2)) hval
    · apply hgranted
      simp only [btreeCall, btreeInsertOrGet, grow_of_room hfull none (some zeroGrant)]
  | reserve size =>
    by_cases hlt : b.capacity < size
    · have hval : (btreeReserve b size none).val = (.oom, b) := by
        unfold btreeReserve
        rw [if_pos hlt]
        apply val_realloc_oom
        have hlt' := UInt32.lt_iff_toNat_lt.mp hlt
        have hle := (le_clampCapacity size).1
        exact Or.inr (UInt32.le_iff_toNat_le.mpr (by omega))
      refine hrefused (.status .oom) ?_ .reserveOom
      exact congrArg (fun r => (BtreeAnswer.status r.1, r.2)) hval
    · apply hgranted
      simp only [btreeCall, btreeReserve, if_neg hlt]
  | compact =>
    by_cases hzero : b.count = 0
    · apply hgranted
      simp only [btreeCall, btreeCompact, if_pos hzero]
    · intro r _
      exact ⟨m, .granted .compact, (h.compact_none hzero).1⟩
  | setExisting key value => exact hgranted rfl
  | find key => exact hgranted rfl
  | findKey value => exact hgranted rfl
  | findAndCompare key value => exact hgranted rfl
  | keyExists key => exact hgranted rfl
  | getAnyValue => exact hgranted rfl
  | erase key => exact hgranted rfl
  | eraseValue value => exact hgranted rfl
  | clear => exact hgranted rfl

theorem Represents.answeredRun (h : b.Represents m) {ls : List (BtreeCall × BtreeAnswer)}
    (hrun : Run AnsweredStep b ls b') : ∃ m', Run FallibleMapStep m ls m' ∧ b'.Represents m' := by
  apply Run.simulate (fun b m => Btree.Represents b m) _ h hrun
  intro b m l b' hrep hstep
  obtain ⟨b₁, answer, hs, hfits, hval, hbounds⟩ := hstep
  obtain ⟨call, reply⟩ := l
  have hrep₁ := hrep.scrambled hs
  cases answer with
  | none =>
    obtain ⟨m', hstep, hrep'⟩ := hrep₁.failedCall hfits (by rw [hval]; exact hbounds)
    rw [hval] at hstep hrep'
    exact ⟨m', hstep, hrep'⟩
  | some g =>
    obtain ⟨m', hstep, hrep'⟩ := hrep₁.call hfits g (by rw [hval]; exact hbounds)
    rw [hval] at hstep hrep'
    exact ⟨m', .granted hstep, hrep'⟩

def Backed (b : Btree) : Prop :=
  (∀ d ∈ b.data, b.capacity.toNat * (4 + b.valueSize.toNat) ≤ d.size) ∧ (b.data = none → b.capacity = 0)

/-- A compaction whose request fails keeps the buffer and the map under a capacity that is
not larger, and later runs go on from that map. -/
structure SurvivesCompaction (b : Btree) (m : KeyMap) : Prop where
  shows : (btreeCompact b none).val.Shows m
  capacity_le : (btreeCompact b none).val.capacity ≤ b.capacity
  retained : b.count ≠ 0 →
    (btreeCompact b none).val.data.map Block.addr = b.data.map Block.addr ∧
      (btreeCompact b none).val.data.map Block.size = b.data.map Block.size
  backed : (btreeCompact b none).val.Backed
  later : ∀ ls b', Run AnsweredStep (btreeCompact b none).val ls b' →
    ∃ m', Run FallibleMapStep m ls m' ∧ b'.Shows m' ∧ b'.Backed

lemma Represents.backed (h : b.Represents m) : b.Backed := ⟨h.sound.buffer, h.sound.unallocated⟩

lemma Represents.survivesCompaction (h : b.Represents m) : b.SurvivesCompaction m := by
  have hrep : (btreeCompact b none).val.Represents m := by
    by_cases hzero : b.count = 0
    · have heq : btreeCompact b none = btreeCompact b (some zeroGrant) := by
        unfold btreeCompact
        rw [if_pos hzero, if_pos hzero]
      rw [heq]
      apply h.compact zeroGrant
      unfold btreeCompact
      rw [if_pos hzero]
      constructor
      · change 0 < 2 ^ 31
        omega
      · change 0 * b.valueSize.toNat < 2 ^ 32
        omega
    · exact (h.compact_none hzero).1
  refine ⟨hrep.shows, ?_, fun hpos => ?_, hrep.backed, fun ls b' hrun => ?_⟩
  · by_cases hzero : b.count = 0
    · unfold btreeCompact
      rw [if_pos hzero]
      exact UInt32.le_iff_toNat_le.mpr (Nat.zero_le _)
    · rw [(h.compact_none hzero).2.2.2]
      exact min_le_left _ _
  · exact ⟨(h.compact_none hpos).2.1, (h.compact_none hpos).2.2.1⟩
  · obtain ⟨m', hmrun, hrep'⟩ := hrep.answeredRun hrun
    exact ⟨m', hmrun, hrep'.shows, hrep'.backed⟩

end Btree

/-- Over every run from `btree_init`, whichever requests fail, the calls are answered as by
a sorted map except for the reported failures; a reported failure has changed nothing; the
buffer holds the recorded capacity; and a compaction that fails keeps the map. -/
theorem btree_survives_failures {valueSize : UInt32} {b : Btree} {ls : List (BtreeCall × BtreeAnswer)}
    (hrun : Run Btree.AnsweredStep (btreeInit valueSize) ls b) :
    (∃ m, Run FallibleMapStep ∅ ls m ∧ b.Shows m ∧ b.SurvivesCompaction m) ∧ b.Backed ∧
    ∀ answer,
      (∀ key value, (btreeInsertNew b key value answer).val.1 = .oom →
        (btreeInsertNew b key value answer).val.2 = b) ∧
      (∀ key value, (btreeInsertOrGet b key value answer).val.1 = .oom →
        (btreeInsertOrGet b key value answer).val.2 = (none, b)) ∧
      ∀ size, (btreeReserve b size answer).val.1 = .oom → (btreeReserve b size answer).val.2 = b := by
  obtain ⟨m, hmrun, hrep⟩ := (Btree.represents_init valueSize).answeredRun hrun
  exact ⟨⟨m, hmrun, hrep.shows, hrep.survivesCompaction⟩, hrep.backed, Btree.call_oom _⟩

def answeredCall (b : Btree) (call : BtreeCall) : Option (BtreeAnswer × Btree) :=
  let answer : AllocAnswer := match call with
    | .compact => none
    | .reserve size => if size ≤ 64 then some zeroGrant else none
    | _ => some zeroGrant
  let r := (btreeCall b answer call).val
  if call.Fits b ∧ r.2.capacity.toNat < 2 ^ 31 ∧
      r.2.capacity.toNat * r.2.valueSize.toNat < 2 ^ 32 then some r
  else none

lemma answeredCall_step {b b' : Btree} {call : BtreeCall} {answer : BtreeAnswer}
    (h : answeredCall b call = some (answer, b')) : Btree.AnsweredStep b (call, answer) b' := by
  unfold answeredCall at h
  dsimp only at h
  split_ifs at h with hcall
  obtain ⟨hfits, hcap, hfit⟩ := hcall
  rw [Option.some.inj h] at hcap hfit
  exact ⟨b, _, .refl b, hfits, Option.some.inj h, hcap, hfit⟩

def refusedCalls : List BtreeCall :=
  [.reserve 64, .insertNew 5 [1, 2], .insertNew 3 [3, 4], .compact, .reserve 100, .find 5,
    .insertOrGet 4 [5, 6], .erase 3, .getAnyValue]

theorem btree_survives_failures_refused : ∃ ls, ∃ b : Btree,
    ls.map Prod.snd = [.status .ok, .status .ok, .status .ok, .done, .status .oom,
      .value (some [1, 2]), .statusValue .notFound (some [5, 6]), .status .ok, .value (some [5, 6])] ∧
    b.capacity = 32 ∧ b.data.map Block.size = some 384 ∧
    (∃ m, Run FallibleMapStep ∅ ls m ∧ b.Shows m ∧ b.SurvivesCompaction m) ∧ b.Backed := by
  have hanswers : (runCalls answeredCall (btreeInit 2) refusedCalls).map
      (fun r => (r.1.map Prod.snd, r.2.capacity, r.2.data.map Block.size)) =
      some ([.status .ok, .status .ok, .status .ok, .done, .status .oom, .value (some [1, 2]),
        .statusValue .notFound (some [5, 6]), .status .ok, .value (some [5, 6])], 32, some 384) := by
    decide +kernel
  obtain ⟨ls, b, hrun, heq⟩ := Run.exists_of_runCalls (fun _ _ _ _ h => answeredCall_step h) hanswers
  simp only [Prod.mk.injEq] at heq
  obtain ⟨hls, hcap, hsize⟩ := heq
  obtain ⟨hmap, hbacked, _⟩ := btree_survives_failures hrun
  exact ⟨ls, b, hls, hcap, hsize, hmap, hbacked⟩

end CStructures
