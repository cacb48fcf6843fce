import CStructures.Lib.Amortized
import CStructures.Model.SharedHeap
import CStructures.Proofs.BtreeFailure

/-!
# The cost of growing a btree

A full btree doubles its buffer before it looks for the key, so that every insertion, of a new
key or of an old one, pays for moving two entries to a new buffer.
-/

namespace CStructures
open Lib

def BtreeCall.inserts : BtreeCall → Nat
  | .insertNew _ _ | .insertOrGet _ _ => 1
  | _ => 0

/-- The moved entries that a call pays for. -/
def BtreeCall.price : BtreeCall → Nat
  | .insertNew _ _ | .insertOrGet _ _ => 2
  | .reserve size => size.toNat
  | _ => 0

lemma card_insert_le (m : KeyMap) (k : UInt32) (v : List Byte) :
    (m.insert k v).keys.card ≤ m.keys.card + 1 := by
  have hsub : (m.insert k v).keys ⊆ insert k m.keys := by
    intro x hx
    rw [Finmap.mem_keys, Finmap.mem_insert] at hx
    exact Finset.mem_insert.mpr (hx.imp_right Finmap.mem_keys.mpr)
  exact (Finset.card_le_card hsub).trans (Finset.card_insert_le _ _)

lemma card_insert_of_mem {m : KeyMap} {k : UInt32} (v : List Byte) (h : k ∈ m) :
    (m.insert k v).keys.card ≤ m.keys.card := by
  apply Finset.card_le_card
  intro x hx
  rw [Finmap.mem_keys, Finmap.mem_insert] at hx
  rcases hx with rfl | hx
  · exact Finmap.mem_keys.mpr h
  · exact Finmap.mem_keys.mpr hx

lemma card_erase_le (m : KeyMap) (k : UInt32) : (m.erase k).keys.card ≤ m.keys.card := by
  rw [Finmap.keys_erase]
  exact Finset.card_erase_le

lemma FallibleMapStep.card_le {m m' : KeyMap} {l : BtreeCall × BtreeAnswer} (h : FallibleMapStep m l m') :
    m'.keys.card ≤ m.keys.card + l.1.inserts := by
  cases h with
  | granted h =>
    cases h with
    | insertNew | insertOrGetNew => exact card_insert_le _ _ _
    | setOld hmem => exact card_insert_of_mem _ hmem
    | eraseOld | eraseValue => exact card_erase_le _ _
    | clear => exact Nat.zero_le _
    | _ => exact Nat.le_add_right _ _
  | _ => exact Nat.le_add_right _ _

namespace Btree

variable {b b' : Btree} {m : KeyMap} {call : BtreeCall} {answer : AllocAnswer} {l : BtreeCall × AllocAnswer}

def room (b : Btree) : Room := ⟨b.count.toNat, b.capacity.toNat⟩

/-- The number of entries that are moved to another buffer. -/
def movedEntries (b : Btree) (l : BtreeCall × AllocAnswer) : Nat :=
  match btreeRequest b l.1, l.2 with
  | .realloc _ _, some _ => b.count.toNat
  | _, _ => 0

/-- One call other than `btree_compact`, with any answer of the allocator, into a state within
the bounds. -/
def GrowthStep (b : Btree) (l : BtreeCall × AllocAnswer) (b' : Btree) : Prop :=
  l.1 ≠ .compact ∧ l.1.Fits b ∧ b' = (btreeCall b l.2 l.1).val.2 ∧ b'.InBounds

lemma movedEntries_le (b : Btree) (l : BtreeCall × AllocAnswer) : b.movedEntries l ≤ b.count.toNat := by
  unfold movedEntries
  split
  · exact le_rfl
  · exact Nat.zero_le _

lemma movedEntries_refused (b : Btree) (call : BtreeCall) : b.movedEntries (call, none) = 0 := by
  unfold movedEntries
  split
  · next hanswer => cases hanswer
  · rfl

lemma movedEntries_of_nothing (h : btreeRequest b call = .nothing) : b.movedEntries (call, answer) = 0 := by
  rw [movedEntries, h]

lemma Represents.answeredCall (h : b.Represents m) (hfits : call.Fits b)
    (hbounds : (btreeCall b answer call).val.2.InBounds) :
    ∃ m' reply, FallibleMapStep m (call, reply) m' ∧ (btreeCall b answer call).val.2.Represents m' := by
  cases answer with
  | none =>
    obtain ⟨m', hstep, hrep⟩ := h.failedCall hfits hbounds
    exact ⟨m', _, hstep, hrep⟩
  | some g =>
    obtain ⟨m', hstep, hrep⟩ := h.call hfits g hbounds
    exact ⟨m', _, .granted hstep, hrep⟩

lemma Represents.card (h : b.Represents m) : m.keys.card = b.count.toNat := h.tabulates.card h.sound.ascending

lemma capacity_insertNew (key : UInt32) (value : List Byte) (answer : AllocAnswer) :
    (btreeInsertNew b key value answer).val.2.capacity = (btreeGrow b answer).val.2.capacity := by
  rcases grow_cases b answer with ⟨grown, hgrow⟩ | hgrow
  · rw [insertNew_grown hgrow, hgrow]
    split_ifs
    · rfl
    · rw [val_insertAtLowerBound]
      split_ifs <;> rfl
  · rw [insertNew_refused hgrow, hgrow]

/-- An insertion that asks for memory when the btree is full. -/
lemma grow_doubles (h : b.Sound) {n : Nat} (hn : n ≤ b.count.toNat + 1)
    (hrequest : btreeRequest b call = if b.count = b.capacity then
      btreeReallocRequest b (b.capacity * btreeExpandFactor) else .nothing)
    (hrefused : answer = none → b.count = b.capacity → n = b.count.toNat) :
    Doubles b.room (b.movedEntries (call, answer)) 2 ⟨n, (btreeGrow b answer).val.2.capacity.toNat⟩ := by
  by_cases hfull : b.count = b.capacity
  · cases answer with
    | none =>
      rw [grow_none h, if_pos hfull, movedEntries_refused]
      exact .keep (hrefused rfl hfull).le
    | some g =>
      have hdouble : (b.capacity * btreeExpandFactor).toNat = b.capacity.toNat * 2 := by
        have hsmall := h.bounds.capacity
        rw [UInt32.toNat_mul]
        change b.capacity.toNat * 2 % 2 ^ 32 = _
        omega
      have hcap : (btreeGrow b (some g)).val.2.capacity = clampCapacity (b.capacity * btreeExpandFactor) := by
        have hval : btreeGrow b (some g) = btreeRealloc b (b.capacity * btreeExpandFactor) (some g) :=
          if_pos hfull
        rw [hval]
        exact (realloc_spec h _ (by rw [hdouble, hfull]; omega) g).2.1
      have hle := (le_clampCapacity (b.capacity * btreeExpandFactor)).1
      rw [hcap]
      exact .grow (congrArg UInt32.toNat hfull) (by omega) (movedEntries_le _ _) hn
  · have hval : btreeGrow b answer = pure (.ok, b) := if_neg hfull
    rw [if_neg hfull] at hrequest
    rw [hval, movedEntries_of_nothing hrequest]
    exact .add hn

/-- The calls that neither insert nor reserve leave the capacity as it is. -/
lemma capacity_call (hnew : call.inserts = 0) (hreserve : ∀ size, call ≠ .reserve size)
    (hcompact : call ≠ .compact) (answer : AllocAnswer) :
    (btreeCall b answer call).val.2.capacity = b.capacity := by
  cases call with
  | insertNew key value | insertOrGet key value => cases hnew
  | reserve size => exact absurd rfl (hreserve size)
  | compact => exact absurd rfl hcompact
  | setExisting key value =>
    change (btreeSetExisting b key value).val.2.capacity = _
    unfold btreeSetExisting
    split_ifs
    · rfl
    · simp only [Logged.val_bind]
      cases (btreeFind b key).val <;> rfl
  | erase key =>
    change (btreeErase b key).val.2.capacity = _
    unfold btreeErase
    simp only [Logged.val_bind, Logged.val_ite]
    split_ifs <;> rfl
  | eraseValue value =>
    change (btreeEraseValue b value).val.2.capacity = _
    rw [val_eraseValue]
    split_ifs <;> rfl
  | _ => rfl

lemma reserve_doubles (h : b.Sound) (n : UInt32) (answer : AllocAnswer) {k : Nat} (hk : k ≤ b.count.toNat) :
    Doubles b.room (b.movedEntries (.reserve n, answer)) n.toNat
      ⟨k, (btreeReserve b n answer).val.2.capacity.toNat⟩ := by
  unfold btreeReserve
  by_cases hlt : b.capacity < n
  · rw [if_pos hlt]
    have hlt' := UInt32.lt_iff_toNat_lt.mp hlt
    have hle := (le_clampCapacity n).1
    cases answer with
    | none =>
      rw [val_realloc_oom (Or.inr (UInt32.le_iff_toNat_le.mpr (by omega))), movedEntries_refused]
      exact .keep hk
    | some g =>
      have hcount := h.count_le
      rw [(realloc_spec h n (by omega) g).2.1]
      exact .reserve hcount hlt' hle (movedEntries_le _ _) hk
  · have hrequest : btreeRequest b (.reserve n) = .nothing := if_neg hlt
    rw [if_neg hlt, movedEntries_of_nothing hrequest]
    exact .keep hk

theorem GrowthStep.doubles (h : b.Represents m) (hstep : GrowthStep b l b') :
    Doubles b.room (b.movedEntries l) l.1.price b'.room ∧ ∃ m', b'.Represents m' := by
  obtain ⟨call, answer⟩ := l
  obtain ⟨hcompact, hfits, rfl, hbounds⟩ := hstep
  obtain ⟨m', reply, hmap, hrep⟩ := h.answeredCall hfits hbounds
  have hcard := hmap.card_le
  rw [h.card, hrep.card] at hcard
  refine ⟨?_, m', hrep⟩
  cases call with
  | insertNew key value =>
    have hgrow : Doubles b.room (b.movedEntries (.insertNew key value, answer)) 2
        ⟨(btreeInsertNew b key value answer).val.2.count.toNat, (btreeGrow b answer).val.2.capacity.toNat⟩ := by
      refine grow_doubles h.sound hcard rfl fun hnone hfull => ?_
      rw [hnone, insertNew_refused ((grow_none h.sound).trans (if_pos hfull))]
    rw [← capacity_insertNew key value answer] at hgrow
    exact hgrow
  | insertOrGet key value =>
    have hsame : (btreeCall b answer (.insertOrGet key value)).val.2 = (btreeInsertNew b key value answer).val.2 :=
      insertOrGet_btree b key value answer
    rw [hsame] at hcard ⊢
    have hgrow : Doubles b.room (b.movedEntries (.insertOrGet key value, answer)) 2
        ⟨(btreeInsertNew b key value answer).val.2.count.toNat, (btreeGrow b answer).val.2.capacity.toNat⟩ := by
      refine grow_doubles h.sound hcard rfl fun hnone hfull => ?_
      rw [hnone, insertNew_refused ((grow_none h.sound).trans (if_pos hfull))]
    rw [← capacity_insertNew key value answer] at hgrow
    exact hgrow
  | reserve n => exact reserve_doubles h.sound n answer hcard
  | compact => exact absurd rfl hcompact
  | _ =>
    have hcap := capacity_call (b := b) rfl (by simp) hcompact answer
    rw [movedEntries_of_nothing rfl, room, room, hcap]
    exact .keep hcard

end Btree

/-- Over every run of calls other than `btree_compact` within the bounds, with any answers of the
allocator, an insertion pays for moving two entries, and `btree_reserve` for as many as it makes
room for. -/
theorem btree_growth_amortized {valueSize : UInt32} {ls : List (BtreeCall × AllocAnswer)} {b : Btree}
    {moved : Nat}
    (hrun : Run (Charged Btree.GrowthStep Btree.movedEntries) (btreeInit valueSize, 0) ls (b, moved)) :
    moved ≤ (ls.map fun l => l.1.price).sum := by
  have hpay := (hrun.amortized 1 (fun b => b.room.saved) (fun b => ∃ m, b.Represents m)
    (fun b l b' ⟨_, hrep⟩ hstep => ⟨(hstep.doubles hrep).2, (hstep.doubles hrep).1.pays⟩)
    ⟨∅, Btree.represents_init valueSize⟩).2
  change 1 * moved + _ ≤ 1 * 0 + 0 + _ at hpay
  omega

def btreeGrowthExec (b : Btree) (l : BtreeCall × AllocAnswer) : Option Btree :=
  let b' := (btreeCall b l.2 l.1).val.2
  if l.1 ≠ .compact ∧ l.1.Fits b ∧ b'.capacity.toNat < 2 ^ 31 ∧
    b'.capacity.toNat * b'.valueSize.toNat < 2 ^ 32 then some b' else none

lemma btreeGrowthExec_step (b : Btree) (l : BtreeCall × AllocAnswer) (b' : Btree)
    (h : btreeGrowthExec b l = some b') : b.GrowthStep l b' := by
  obtain ⟨⟨hcompact, hfits, hcap, hfit⟩, h⟩ := Option.ite_none_right_eq_some.mp h
  obtain rfl := Option.some.inj h
  exact ⟨hcompact, hfits, rfl, hcap, hfit⟩

/-- The buffer doubles for a key that is there already. -/
def growingInsertions : List (BtreeCall × AllocAnswer) :=
  (List.range 32).map (fun k => (.insertNew (UInt32.ofNat k) [], some zeroGrant)) ++
    [(.insertNew 40 [], none), (.insertNew 5 [], some zeroGrant), (.erase 7, none),
      (.reserve 100, some zeroGrant)]

theorem btree_growth_amortized_once : ∃ b, ∃ moved : Nat,
    Run (Charged Btree.GrowthStep Btree.movedEntries) (btreeInit 0, 0) growingInsertions (b, moved) ∧
    moved = 63 ∧ moved ≤ (growingInsertions.map fun l => l.1.price).sum := by
  have hmoved : (growingInsertions.foldlM (chargedExec btreeGrowthExec Btree.movedEntries)
      (btreeInit 0, 0)).map Prod.snd = some 63 := by decide +kernel
  obtain ⟨⟨b, moved⟩, hrun, hval⟩ :=
    Run.exists_of_foldlM (chargedExec_step btreeGrowthExec_step) hmoved
  exact ⟨b, moved, hrun, hval, btree_growth_amortized hrun⟩

end CStructures
