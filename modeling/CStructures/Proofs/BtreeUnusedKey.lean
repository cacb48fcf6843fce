import CStructures.Proofs.BtreeAccess
import CStructures.Proofs.BtreeFailure

/-!
# Unused keys

`btree_find_unused_key` looks for the first slot whose content is not its index. The loop is
bounded by nothing but the contents of the buffer, so it is safe when there is such a slot below
the capacity. For this only the keys matter, and they stay in order however large the values are.
-/

namespace CStructures
open Lib

namespace Btree

variable {b b' : Btree} {key : UInt32} {value : List Byte} {answer : AllocAnswer} {action : BtreeAction}

/-- The loop ends, it reads key slots below the capacity only, and the key is not stored. -/
def FindsUnusedKey (b : Btree) : Prop :=
  ∃ fuel key, (btreeFindUnusedKey fuel b).val = some key ∧
    (∀ a ∈ (btreeFindUnusedKey fuel b).log, ∃ i < b.capacity.toNat, a = .read (keyOffset i) 4) ∧
    ∀ i < b.count.toNat, b.keys i ≠ key

/-- The part of the invariant that is about the keys alone. -/
structure KeysSound (b : Btree) : Prop where
  count_le : b.count.toNat ≤ b.capacity.toNat
  buffer : ∀ d ∈ b.data, 4 * b.capacity.toNat ≤ d.size
  unallocated : b.data = none → b.capacity = 0
  ascending : Ascending b.keys b.count.toNat

/-- There is no buffer, or a slot that holds another value than its index. -/
def HasGap (b : Btree) : Prop :=
  b.data = none ∨ ∃ i < b.capacity.toNat, b.keys i ≠ UInt32.ofNat i

lemma unusedKeyFrom_found {fuel : Nat} {start : UInt32} (h : (unusedKeyFrom b fuel start).val = some key) :
    b.keys key.toNat ≠ key ∧ .read (keyOffset key.toNat) 4 ∈ (unusedKeyFrom b fuel start).log := by
  induction fuel generalizing start with
  | zero => cases h
  | succ fuel ih =>
    unfold unusedKeyFrom at h ⊢
    rw [Logged.val_bind, Logged.val_ite, val_readKey] at h
    rw [Logged.log_bind, Logged.log_ite, val_readKey]
    split_ifs at h ⊢ with hk
    · obtain ⟨hne, hmem⟩ := ih h
      exact ⟨hne, List.mem_append_right _ hmem⟩
    · rw [← Option.some.inj h]
      exact ⟨hk, List.mem_append_left _ (List.mem_singleton_self _)⟩

lemma unusedKeyFrom_ends {p fuel : Nat} {start : UInt32} (hp : p < 2 ^ 32) (hstart : start.toNat ≤ p)
    (hfuel : p < start.toNat + fuel)
    (hbefore : ∀ i, start.toNat ≤ i → i < p → b.keys i = UInt32.ofNat i) (hgap : b.keys p ≠ UInt32.ofNat p) :
    (unusedKeyFrom b fuel start).val = some (UInt32.ofNat p) ∧
      ∀ a ∈ (unusedKeyFrom b fuel start).log, ∃ i ≤ p, a = .read (keyOffset i) 4 := by
  induction fuel generalizing start with
  | zero => omega
  | succ fuel ih =>
    unfold unusedKeyFrom
    rw [Logged.val_bind, Logged.val_ite, Logged.log_bind, Logged.log_ite, val_readKey]
    rcases Nat.lt_or_eq_of_le hstart with hlt | heq
    · have hk : b.keys start.toNat = start := by
        rw [hbefore _ le_rfl hlt, UInt32.ofNat_toNat]
      have hsucc : (start + 1).toNat = start.toNat + 1 := by
        rw [UInt32.toNat_add]
        change (start.toNat + 1) % 2 ^ 32 = _
        omega
      obtain ⟨hval, hlog⟩ := @ih (start + 1) (by omega) (by omega) fun i hi hip => hbefore i (by omega) hip
      rw [if_pos hk, if_pos hk]
      refine ⟨hval, List.forall_mem_append.mpr ⟨?_, hlog⟩⟩
      intro a ha
      exact ⟨start.toNat, hstart, List.mem_singleton.mp ha⟩
    · have hstart' : start = UInt32.ofNat p := by
        rw [← heq, UInt32.ofNat_toNat]
      have hk : b.keys start.toNat ≠ start := by
        rw [heq, hstart']
        exact hgap
      rw [if_neg hk, if_neg hk, hstart']
      refine ⟨rfl, ?_⟩
      intro a ha
      rw [Logged.log_pure, List.append_nil] at ha
      exact ⟨start.toNat, hstart, hstart' ▸ List.mem_singleton.mp ha⟩

lemma btreeFindUnusedKey_of_isSome (hd : b.data.isSome) (fuel : Nat) :
    btreeFindUnusedKey fuel b = unusedKeyFrom b fuel 0 := if_pos hd

/-- The first index that its slot does not hold is no stored key. -/
lemma KeysSound.gap_not_stored (h : b.KeysSound) {p : Nat} (hp : p < b.capacity.toNat)
    (hbefore : ∀ i < p, b.keys i = UInt32.ofNat i) (hgap : b.keys p ≠ UInt32.ofNat p) :
    ∀ i < b.count.toNat, b.keys i ≠ UInt32.ofNat p := by
  have hto : (UInt32.ofNat p).toNat = p := toNat_ofNat_of_le hp.le
  have hasc : Ascending (fun i => (b.keys i).toNat) b.count.toNat :=
    fun i j hij hj => UInt32.lt_iff_toNat_lt.mp (h.ascending i j hij hj)
  have hmatch : ∀ i < p, (b.keys i).toNat = i := by
    intro i hi
    have hle : i ≤ b.capacity.toNat := by omega
    rw [hbefore i hi, toNat_ofNat_of_le hle]
  have hdiffers : (b.keys p).toNat ≠ p := by
    intro heq
    apply hgap
    rw [← UInt32.toNat_inj, heq, hto]
  intro i hi heq
  apply hasc.first_gap hmatch hdiffers hi
  rw [heq, hto]

lemma KeysSound.findsUnusedKey_of_gap (h : b.KeysSound) (hd : b.data.isSome)
    (hgap : ∃ i, i < b.capacity.toNat ∧ b.keys i ≠ UInt32.ofNat i) : b.FindsUnusedKey := by
  have hword := b.capacity.toNat_lt
  obtain ⟨hp, hpne⟩ := Nat.find_spec hgap
  set p := Nat.find hgap with hpdef
  have hbefore : ∀ i < p, b.keys i = UInt32.ofNat i := by
    intro i hi
    by_contra hne
    exact Nat.find_min hgap hi ⟨by omega, hne⟩
  obtain ⟨hval, hlog⟩ := @unusedKeyFrom_ends b p (p + 1) 0 (by omega) (Nat.zero_le _)
    (by rw [UInt32.toNat_zero]; omega) (fun i _ hi => hbefore i hi) hpne
  refine ⟨p + 1, UInt32.ofNat p, ?_⟩
  rw [btreeFindUnusedKey_of_isSome hd]
  refine ⟨hval, ?_, h.gap_not_stored hp hbefore hpne⟩
  intro a ha
  obtain ⟨i, hi, heq⟩ := hlog a ha
  exact ⟨i, by omega, heq⟩

/-- The search is safe exactly when there is a gap. -/
theorem KeysSound.findsUnusedKey_iff (h : b.KeysSound) : b.FindsUnusedKey ↔ b.HasGap := by
  have hcb := h.count_le
  cases hdata : b.data with
  | none =>
    apply iff_of_true _ (Or.inl hdata)
    have hcap := congrArg UInt32.toNat (h.unallocated hdata)
    rw [UInt32.toNat_zero] at hcap
    refine ⟨0, 0, ?_⟩
    unfold btreeFindUnusedKey
    rw [hdata]
    exact ⟨rfl, List.forall_mem_nil _, fun i hi => by omega⟩
  | some d =>
    have hd : b.data.isSome := by
      rw [hdata]
      rfl
    constructor
    · rintro ⟨fuel, key, hval, hlog, _⟩
      rw [btreeFindUnusedKey_of_isSome hd] at hval hlog
      obtain ⟨hne, hmem⟩ := unusedKeyFrom_found hval
      obtain ⟨i, hi, heq⟩ := hlog _ hmem
      rw [Access.read.injEq, keyOffset, keyOffset] at heq
      right
      refine ⟨key.toNat, by omega, ?_⟩
      rwa [UInt32.ofNat_toNat]
    · intro hgap
      apply h.findsUnusedKey_of_gap hd
      apply hgap.resolve_left
      rw [hdata]
      exact Option.some_ne_none d

namespace KeysSound

lemma isSome (h : b.KeysSound) (hpos : 0 < b.capacity.toNat) : b.data.isSome := by
  rw [Option.isSome_iff_ne_none]
  intro hnone
  rw [h.unallocated hnone] at hpos
  exact absurd hpos (by decide)

lemma of_sameBuffer (h : b.KeysSound) (hcap : b'.capacity = b.capacity)
    (hsize : b'.data.map Block.size = b.data.map Block.size) (hcount : b'.count.toNat ≤ b.capacity.toNat)
    (hasc : Ascending b'.keys b'.count.toNat) : b'.KeysSound where
  count_le := by rwa [hcap]
  buffer := by
    rw [hcap]
    exact forall_size_of_sameSize hsize h.buffer
  unallocated := by
    rw [eq_none_of_sameSize hsize, hcap]
    exact h.unallocated
  ascending := hasc

lemma withBuffer (h : b.KeysSound) {d : Block} {cap' : UInt32} (hcount : b.count.toNat ≤ cap'.toNat)
    (hsize : 4 * cap'.toNat ≤ d.size)
    (hkeys : ∀ i < b.count.toNat, record d.bytes 0 4 i = record b.bytes 0 4 i) :
    (b.withBuffer d cap').KeysSound where
  count_le := hcount
  buffer := by
    intro x hx
    rw [Option.mem_def, Btree.withBuffer, Option.some.injEq] at hx
    exact hx ▸ hsize
  unallocated := by
    intro hnone
    cases hnone
  ascending := h.ascending.congr fun i hi => keys_congr (hkeys i hi)

lemma realloc (h : b.KeysSound) {n : UInt32} (hcount : b.count.toNat ≤ n.toNat)
    (hsize : (clampCapacity n).toNat * (4 + b.valueSize.toNat) < 2 ^ 64) (answer : AllocAnswer) :
    (btreeRealloc b n answer).val = (.oom, b) ∨
      ∃ d, (btreeRealloc b n answer).val = (.ok, b.withBuffer d (clampCapacity n)) ∧
        (b.withBuffer d (clampCapacity n)).KeysSound := by
  have hle := (le_clampCapacity n).1
  have hcb := h.count_le
  have hbuf := bufferSize_toNat hsize
  rw [Nat.mul_add] at hbuf
  cases hdata : b.data with
  | none =>
    cases answer with
    | none => exact Or.inl (val_realloc_oom (Or.inl hdata))
    | some g =>
      have hzero : b.count.toNat = 0 := by
        rw [h.unallocated hdata] at hcb
        exact Nat.le_zero.mp hcb
      refine Or.inr ⟨_, val_realloc_none hdata, h.withBuffer (by omega) ?_ fun i hi => by omega⟩
      change _ ≤ b.bufferSize (clampCapacity n)
      omega
  | some d =>
    have hbytes : b.bytes = d.bytes := by simp only [bytes, hdata]
    have hold := h.buffer d hdata
    by_cases hgrow : clampCapacity n ≥ b.capacity
    · cases answer with
      | none => exact Or.inl (val_realloc_oom (Or.inr hgrow))
      | some g =>
        refine Or.inr ⟨_, val_realloc_grow hdata hgrow, h.withBuffer (by omega) ?_ fun i hi => ?_⟩
        · change _ ≤ b.bufferSize (clampCapacity n)
          omega
        · rw [key_shiftValues (by omega), record_reallocBlock (by omega) (by omega), hbytes]
    · have hlt := UInt32.le_iff_toNat_le.not.mp hgrow
      cases answer with
      | none =>
        refine Or.inr ⟨_, val_realloc_failedShrink hdata hgrow, h.withBuffer (by omega) ?_ fun i hi => ?_⟩
        · change _ ≤ d.size
          omega
        · rw [key_shiftValues (by omega), hbytes]
      | some g =>
        refine Or.inr ⟨_, val_realloc_shrink hdata hgrow, h.withBuffer (by omega) ?_ fun i hi => ?_⟩
        · change _ ≤ b.bufferSize (clampCapacity n)
          omega
        · have hsame : (b.shiftValues d (clampCapacity n)).size = d.size := rfl
          rw [record_reallocBlock (by omega) (by omega), key_shiftValues (by omega), hbytes]

lemma insertAtLowerBound (h : b.KeysSound) (hroom : b.count.toNat < b.capacity.toNat)
    (hnot : ¬(isKeyAt b (btreeFindLowerBound b key).val key).val = true) :
    (CStructures.insertAtLowerBound b (btreeFindLowerBound b key).val key value).val.KeysSound := by
  have hlb := findLowerBound_spec h.ascending key
  rw [val_isKeyAt, decide_eq_true_eq] at hnot
  obtain ⟨hcount, hcap, _, hsize, hkeys⟩ :=
    @insertAtLowerBound_keys b key value _ (h.isSome (by omega)) hlb.le hroom
  apply h.of_sameBuffer hcap hsize (by omega)
  rw [hcount]
  exact (h.ascending.insertAt hlb hnot).congr hkeys

lemma eraseIndex (h : b.KeysSound) {idx : UInt32} (hidx : idx.toNat < b.count.toNat) :
    (btreeEraseIndex b idx).val.2.KeysSound := by
  have hcb := h.count_le
  obtain ⟨_, hcount, hcap, _, hsize, hkeys⟩ := eraseIndex_keys (h.isSome (by omega)) hidx hcb
  have hasc := h.ascending
  rw [← hcount] at hasc
  exact h.of_sameBuffer hcap hsize (by omega) (hasc.eraseAt.congr hkeys)

lemma writeValue (h : b.KeysSound) (_ : 0 < b.count.toNat) (p : UInt32) (value : List Byte) :
    (b.writeValue (b.valueOffset p) value).val.KeysSound := by
  have hcb := h.count_le
  exact h.of_sameBuffer rfl setBytes_size hcb (h.ascending.congr fun i hi =>
    keys_writeValue (h.isSome (by omega)) (by omega))

end KeysSound

def requestedCapacity (b : Btree) : BtreeAction → Option UInt32
  | .call (.insertNew _ _) _ => if b.count = b.capacity then some (b.capacity * btreeExpandFactor) else none
  | .call (.insertOrGet _ _) _ => if b.count = b.capacity then some (b.capacity * btreeExpandFactor) else none
  | .call (.reserve size) _ => if b.capacity < size then some size else none
  | .call .compact _ => if b.count = 0 then none else some b.count
  | _ => none

/-- The requested capacity holds the entries, and the size of its buffer does not wrap. -/
def RequestFits (b : Btree) (action : BtreeAction) : Prop :=
  ∀ n ∈ b.requestedCapacity action,
    b.count ≤ n ∧ (clampCapacity n).toNat * (4 + b.valueSize.toNat) < 2 ^ 64

def SameKeys (b b' : Btree) : Prop := ∃ bytes, b' = b.setBytes bytes ∧ ∀ i < b.count.toNat, b'.keys i = b.keys i

/-- One action whose request fits, on a buffer with any bytes beyond the keys. -/
def KeyStep (b : Btree) (action : BtreeAction) (b' : Btree) : Prop :=
  ∃ b₁, SameKeys b b₁ ∧ b₁.Allowed action ∧ b₁.RequestFits action ∧ b' = b₁.act action

namespace KeysSound

lemma sameKeys (h : b.KeysSound) (hs : SameKeys b b') : b'.KeysSound := by
  obtain ⟨bytes, rfl, hkeys⟩ := hs
  exact h.of_sameBuffer rfl setBytes_size h.count_le (h.ascending.congr hkeys)

lemma init (valueSize : UInt32) : (btreeInit valueSize).KeysSound where
  count_le := le_rfl
  buffer := by
    rintro d ⟨⟩
  unallocated := fun _ => rfl
  ascending := by
    intro i j _ hj
    exact absurd hj (Nat.not_lt_zero j)

/-- The growth of a full btree makes room, or fails and changes nothing. -/
lemma grow (h : b.KeysSound) (hfits : ∀ n, b.count = b.capacity → n = b.capacity * btreeExpandFactor →
      b.count ≤ n ∧ (clampCapacity n).toNat * (4 + b.valueSize.toNat) < 2 ^ 64) (answer : AllocAnswer) :
    (btreeGrow b answer).val = (.oom, b) ∨
      ∃ grown, (btreeGrow b answer).val = (.ok, grown) ∧ grown.KeysSound ∧
        grown.count.toNat < grown.capacity.toNat := by
  have hcb := h.count_le
  unfold btreeGrow
  rw [Logged.val_ite]
  by_cases hfull : b.count = b.capacity
  · rw [if_pos hfull]
    obtain ⟨hle, hsize⟩ := hfits _ hfull rfl
    have hle' := UInt32.le_iff_toNat_le.mp hle
    rcases h.realloc hle' hsize answer with hoom | ⟨d, hval, hsound⟩
    · exact Or.inl hoom
    · refine Or.inr ⟨_, hval, hsound, ?_⟩
      obtain ⟨hclamp, hmin⟩ := le_clampCapacity (b.capacity * btreeExpandFactor)
      have hdouble : (b.capacity * btreeExpandFactor).toNat = b.capacity.toNat * 2 % 2 ^ 32 :=
        UInt32.toNat_mul _ _
      change b.count.toNat < (clampCapacity (b.capacity * btreeExpandFactor)).toNat
      rw [hfull] at hle' ⊢
      omega
  · have hne := UInt32.toNat_inj.not.mpr hfull
    rw [if_neg hfull]
    exact Or.inr ⟨b, rfl, h, by omega⟩

lemma insertNew (h : b.KeysSound) (hfits : b.RequestFits (.call (.insertNew key value) answer)) :
    (btreeInsertNew b key value answer).val.2.KeysSound := by
  have hgrow := h.grow (fun n hfull hn => hfits n (by rw [hn]; exact if_pos hfull)) answer
  rcases hgrow with hoom | ⟨grown, hok, hsound, hroom⟩
  · rw [insertNew_refused hoom]
    exact h
  · rw [insertNew_grown hok]
    split_ifs with hkey
    · exact hsound
    · exact @insertAtLowerBound grown key value hsound hroom hkey

lemma insertOrGet (h : b.KeysSound) (hfits : b.RequestFits (.call (.insertOrGet key value) answer)) :
    (btreeInsertOrGet b key value answer).val.2.2.KeysSound := by
  rw [insertOrGet_btree]
  exact h.insertNew hfits

lemma find_cases (key : UInt32) : (btreeFind b key).val = none ∨
    0 < b.count.toNat ∧ ∃ p, (btreeFind b key).val = some (b.valueOffset p) := by
  unfold btreeFind
  simp only [Logged.val_bind, Logged.val_ite, Logged.val_pure, val_isKeyAt, decide_eq_true_eq]
  split_ifs with hkey
  · exact Or.inr ⟨by omega, _, rfl⟩
  · exact Or.inl rfl

lemma setExisting (h : b.KeysSound) : (btreeSetExisting b key value).val.2.KeysSound := by
  unfold btreeSetExisting
  rw [Logged.val_ite]
  split_ifs
  · exact h
  · rw [Logged.val_bind]
    rcases find_cases (b := b) key with hnone | ⟨hpos, p, hsome⟩
    · rw [hnone]
      exact h
    · rw [hsome]
      exact h.writeValue hpos p value

lemma erase (h : b.KeysSound) : (btreeErase b key).val.2.KeysSound := by
  unfold btreeErase
  simp only [Logged.val_bind, Logged.val_ite, Logged.val_pure, val_isKeyAt, decide_eq_true_eq]
  split_ifs with hkey
  · apply h.eraseIndex
    rw [toNat_ofNat_of_le hkey.1.le]
    exact hkey.1
  · exact h

lemma eraseValue (h : b.KeysSound) : (btreeEraseValue b value).val.2.KeysSound := by
  have hval := (matchingValueFrom_inside h.count_le value b.count.toNat 0 (Nat.zero_add _)).2
  unfold btreeEraseValue
  simp only [Logged.val_bind, Logged.val_ite, Logged.val_pure]
  split_ifs with hnone
  · exact h
  · exact h.eraseIndex (hval.resolve_left hnone)

lemma clear (h : b.KeysSound) : (btreeClear b).KeysSound :=
  h.of_sameBuffer rfl rfl (Nat.zero_le _) fun _ j _ hj => absurd hj (Nat.not_lt_zero j)

lemma reserve {size : UInt32} (h : b.KeysSound) (hfits : b.RequestFits (.call (.reserve size) answer)) :
    (btreeReserve b size answer).val.2.KeysSound := by
  unfold btreeReserve
  rw [Logged.val_ite]
  by_cases hlt : b.capacity < size
  · rw [if_pos hlt]
    obtain ⟨hle, hsize⟩ := hfits size (if_pos hlt)
    rcases h.realloc (UInt32.le_iff_toNat_le.mp hle) hsize answer with hoom | ⟨d, hval, hsound⟩
    · rw [hoom]
      exact h
    · rw [hval]
      exact hsound
  · rw [if_neg hlt]
    exact h

lemma compact (h : b.KeysSound) (hfits : b.RequestFits (.call .compact answer)) :
    (btreeCompact b answer).val.KeysSound := by
  unfold btreeCompact
  rw [Logged.val_ite]
  by_cases hzero : b.count = 0
  · rw [if_pos hzero]
    refine ⟨?_, ?_, fun _ => rfl, ?_⟩
    · change b.count.toNat ≤ 0
      rw [hzero]
      exact le_rfl
    · rintro d ⟨⟩
    · intro i j _ hj
      change j < b.count.toNat at hj
      rw [hzero] at hj
      exact absurd hj (Nat.not_lt_zero j)
  · rw [if_neg hzero]
    obtain ⟨hle, hsize⟩ := hfits b.count (if_neg hzero)
    rcases h.realloc (UInt32.le_iff_toNat_le.mp hle) hsize answer with hoom | ⟨d, hval, hsound⟩
    · rw [Logged.val_bind, hoom]
      exact h
    · rw [Logged.val_bind, hval]
      exact hsound

/-- Every action whose request fits keeps the keys in order. -/
theorem act (h : b.KeysSound) (hallowed : b.Allowed action) (hfits : b.RequestFits action) :
    (b.act action).KeysSound := by
  cases action with
  | call call answer =>
    cases call with
    | insertNew key value => exact h.insertNew hfits
    | insertOrGet key value => exact h.insertOrGet hfits
    | setExisting key value => exact h.setExisting
    | find key => exact h
    | findKey value => exact h
    | findAndCompare key value => exact h
    | keyExists key => exact h
    | getAnyValue => exact h
    | erase key => exact h.erase
    | eraseValue value => exact h.eraseValue
    | clear => exact h.clear
    | reserve size => exact h.reserve hfits
    | compact => exact h.compact hfits
  | eraseInternalValue off =>
    obtain ⟨_, i, hi, rfl⟩ := hallowed
    exact h.eraseIndex (valueToIdx_lt hi)
  | eraseCurrentItem idx => exact h.eraseIndex hallowed

lemma run {actions : List BtreeAction} (h : b.KeysSound) (hrun : Run KeyStep b actions b') : b'.KeysSound := by
  apply Run.invariant KeysSound _ h hrun
  rintro c action c' hc ⟨c₁, hs, hallowed, hfits, rfl⟩
  exact (hc.sameKeys hs).act hallowed hfits

end KeysSound

end Btree

/-- In every btree reached by actions whose requests fit, whatever lies in the unused slots,
`btree_find_unused_key` ends, stays below the capacity and finds a key that is not stored exactly
when some slot below the capacity holds another value than its index. -/
theorem btree_find_unused_key_safe {valueSize : UInt32} {actions : List BtreeAction} {b b' : Btree}
    (hrun : Run Btree.KeyStep (btreeInit valueSize) actions b) (hs : Btree.SameKeys b b') :
    b'.FindsUnusedKey ↔ b'.HasGap :=
  (((Btree.KeysSound.init valueSize).run hrun).sameKeys hs).findsUnusedKey_iff

instance Btree.decidableRequestFits (b : Btree) (action : BtreeAction) : Decidable (b.RequestFits action) :=
  Option.decidableForallMem (b.requestedCapacity action)

lemma Btree.SameKeys.refl (b : Btree) : Btree.SameKeys b b := by
  refine ⟨b.bytes, ?_, fun _ _ => rfl⟩
  obtain ⟨data, _, _, _⟩ := b
  cases data <;> rfl

/-- Execute a `KeyStep` that is a call. -/
def keyAct (b : Btree) : BtreeAction → Option Btree
  | .call call answer =>
    if call.Fits b ∧ b.RequestFits (.call call answer) then some (b.act (.call call answer)) else none
  | _ => none

lemma keyAct_step (b : Btree) (action : BtreeAction) (b' : Btree) (h : keyAct b action = some b') :
    Btree.KeyStep b action b' := by
  cases action with
  | call call answer =>
    unfold keyAct at h
    dsimp only at h
    split_ifs at h with hok
    exact ⟨b, .refl b, hok.1, hok.2, (Option.some.inj h).symm⟩
  | _ => cases h

def keyInsertions (keys : List UInt32) : List BtreeAction :=
  keys.map fun key => .call (.insertNew key []) (some zeroGrant)

/-- The third slot holds 5, so 2 is found. -/
theorem btree_find_unused_key_safe_sparse : ∃ b : Btree,
    Run Btree.KeyStep (btreeInit 0) (keyInsertions [1, 5, 0]) b ∧
      (btreeFindUnusedKey 3 b).val = some 2 ∧ b.FindsUnusedKey := by
  have hfields : ((keyInsertions [1, 5, 0]).foldlM keyAct (btreeInit 0)).map
      (fun b => (b.capacity, b.keys 2, (btreeFindUnusedKey 3 b).val)) = some (32, 5, some 2) := by
    decide +kernel
  obtain ⟨b, hrun, hb⟩ := Run.exists_of_foldlM keyAct_step hfields
  simp only [Prod.mk.injEq] at hb
  refine ⟨b, hrun, hb.2.2, (btree_find_unused_key_safe hrun (.refl b)).mpr (Or.inr ⟨2, ?_, ?_⟩)⟩
  · rw [hb.1]
    decide
  · rw [hb.2.1]
    decide

/-- The keys 0, …, 31 fill a btree, and the search goes on behind them. -/
theorem btree_find_unused_key_dense : ∃ b : Btree,
    Run Btree.KeyStep (btreeInit 0) (keyInsertions ((List.range 32).map UInt32.ofNat)) b ∧
      b.count = 32 ∧ b.capacity = 32 ∧ ¬b.FindsUnusedKey := by
  have hfields : ((keyInsertions ((List.range 32).map UInt32.ofNat)).foldlM keyAct (btreeInit 0)).map
      (fun b => (b.data.isSome, b.count, b.capacity,
        (List.range 32).all fun i => b.keys i == UInt32.ofNat i)) = some (true, 32, 32, true) := by
    decide +kernel
  obtain ⟨b, hrun, hb⟩ := Run.exists_of_foldlM keyAct_step hfields
  simp only [Prod.mk.injEq] at hb
  obtain ⟨hdata, hcount, hcap, hkeys⟩ := hb
  refine ⟨b, hrun, hcount, hcap, ?_⟩
  rw [((Btree.KeysSound.init 0).run hrun).findsUnusedKey_iff]
  rintro (hnone | ⟨i, hi, hne⟩)
  · rw [hnone] at hdata
    cases hdata
  · rw [hcap] at hi
    apply hne
    exact beq_iff_eq.mp (List.all_eq_true.mp hkeys i (List.mem_range.mpr hi))

end CStructures
