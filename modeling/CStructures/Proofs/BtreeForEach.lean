import CStructures.Proofs.BtreeEntries

/-!
# Erasing while iterating

Each pass of the loop either keeps the current entry and goes on behind it, or erases it, so
that the next one moves to the index the loop has stepped back to and forth again.
-/

namespace CStructures
open Lib

namespace Btree

variable {b b' : Btree} {idx : UInt32} {e : UInt32 × List Byte} {kept rest : List (UInt32 × List Byte)}

lemma Sound.val_readKey (h : b.Sound) (hidx : idx.toNat < b.entries.length) :
    (b.readKey idx.toNat).val = b.entries[idx.toNat].1 := by
  rw [Btree.val_readKey, getElem_entries h.countFits]

lemma Sound.val_forEachItem (h : b.Sound) (hidx : idx.toNat < b.entries.length) :
    ((forEachItem b idx).val.key, (forEachItem b idx).val.bytes) = b.entries[idx.toNat] := by
  have hle : idx.toNat ≤ b.count.toNat := by
    rw [length_entries] at hidx
    exact hidx.le
  rw [getElem_entries h.countFits]
  change (load32 b.bytes (keyOffset idx.toNat), b.deref (b.valueOffset idx)) = _
  rw [← keys_eq, deref_valueOffset h.countFits hle]

/-- The end of the loop is behind the last entry. -/
lemma eq_count_iff (h : b.entries = kept ++ rest) (hidx : idx.toNat = kept.length) :
    idx = b.count ↔ rest = [] := by
  have hlen := congrArg List.length h
  rw [length_entries, List.length_append] at hlen
  rw [← UInt32.toNat_inj, ← List.length_eq_zero_iff]
  omega

lemma getElem_split (h : b.entries = kept ++ e :: rest) (hidx : idx.toNat = kept.length) :
    ∃ hlt : idx.toNat < b.entries.length, b.entries[idx.toNat] = e := by
  have hlt : idx.toNat < b.entries.length := by
    rw [h, List.length_append, List.length_cons]
    omega
  refine ⟨hlt, ?_⟩
  simp only [h, hidx, List.getElem_append_right le_rfl, Nat.sub_self, List.getElem_cons_zero]

/-- After an erasure the next entry is at the index of the erased one. -/
lemma Sound.eraseCurrentItem (h : b.Sound) (hentries : b.entries = kept ++ e :: rest)
    (hidx : idx.toNat = kept.length) :
    let r := (btreeEraseCurrentItemInForLoop b idx).val
    r.1 + 1 = idx ∧ r.2.Sound ∧ r.2.entries = kept ++ rest := by
  obtain ⟨hlt, _⟩ := getElem_split hentries hidx
  rw [length_entries] at hlt
  obtain ⟨_, hsound, herased⟩ := h.eraseIndex hlt
  have hback : idx - 1 + 1 = idx := UInt32.sub_add_cancel idx 1
  refine ⟨hback, hsound, herased.trans ?_⟩
  rw [hentries, hidx, List.eraseIdx_append_of_length_le le_rfl, Nat.sub_self, List.eraseIdx_cons_zero]

lemma toNat_next (h : b.entries = kept ++ e :: rest) (hidx : idx.toNat = kept.length) :
    (idx + 1).toNat = (kept ++ [e]).length := by
  obtain ⟨hlt, _⟩ := getElem_split h hidx
  rw [length_entries] at hlt
  rw [toNat_succ hlt, hidx, List.length_append, List.length_singleton]

/-- The current entry is erased or kept, and the loop goes on behind what has been kept. -/
theorem Sound.pass (h : b.Sound) (hentries : b.entries = kept ++ e :: rest) (hidx : idx.toNat = kept.length)
    (erased : Bool) :
    let r := if erased then (btreeEraseCurrentItemInForLoop b idx).val else (idx, b)
    let kept' := kept ++ if erased then [] else [e]
    r.2.Sound ∧ r.2.entries = kept' ++ rest ∧ (r.1 + 1).toNat = kept'.length := by
  cases erased with
  | true =>
    obtain ⟨hback, hsound, hleft⟩ := h.eraseCurrentItem hentries hidx
    simp only [if_true, List.append_nil, hback]
    exact ⟨hsound, hleft, hidx⟩
  | false =>
    simp only [Bool.false_eq_true, if_false]
    exact ⟨h, by rw [hentries, List.append_cons], toNat_next hentries hidx⟩

section Loop

variable {α γ : Type} (item : Btree → UInt32 → Logged Access α)

lemma val_forEachErasingFrom (erase : α → Bool) (hgo : idx ≠ b.count) (fuel : Nat) :
    (forEachErasingFrom item erase (fuel + 1) b idx).val =
      let current := (item b idx).val
      let r := if erase current then (btreeEraseCurrentItemInForLoop b idx).val else (idx, b)
      (forEachErasingFrom item erase fuel r.2 (r.1 + 1)).val.map fun rest => (current :: rest.1, rest.2) := by
  rw [forEachErasingFrom, if_pos hgo]
  simp only [Logged.val_bind, Logged.val_ite, Logged.val_pure]
  split_ifs <;> rfl

/-- A loop whose body sees `view` of the current entry keeps the entries that have been passed
and filters the others. -/
theorem forEachErasingFrom_spec (see : α → γ) (view : UInt32 × List Byte → γ) (p : γ → Bool)
    (hitem : ∀ (b : Btree) (idx : UInt32) (hlt : idx.toNat < b.entries.length), b.Sound →
      see (item b idx).val = view b.entries[idx.toNat])
    (hb : b.Sound) (hentries : b.entries = kept ++ rest) (hidx : idx.toNat = kept.length) :
    ∃ visits b', (∀ fuel, rest.length < fuel →
        (forEachErasingFrom item (fun current => p (see current)) fuel b idx).val = some (visits, b')) ∧
      visits.map see = rest.map view ∧ b'.Sound ∧
      b'.entries = kept ++ rest.filter fun e => !p (view e) := by
  induction rest generalizing b idx kept with
  | nil =>
    refine ⟨[], b, fun fuel hfuel => ?_, rfl, hb, hentries⟩
    obtain ⟨fuel, rfl⟩ := Nat.exists_eq_succ_of_ne_zero (Nat.ne_zero_of_lt hfuel)
    have hend : idx = b.count := (eq_count_iff hentries hidx).mpr rfl
    rw [forEachErasingFrom, if_neg (not_not.mpr hend)]
    rfl
  | cons e rest ih =>
    have hgo : idx ≠ b.count := fun heq => List.cons_ne_nil _ _ ((eq_count_iff hentries hidx).mp heq)
    obtain ⟨hlt, he⟩ := getElem_split hentries hidx
    have hsee : see (item b idx).val = view e := by rw [hitem b idx hlt hb, he]
    obtain ⟨hsound, hentries', hidx'⟩ := hb.pass hentries hidx (p (view e))
    obtain ⟨visits, b', hloop, hvisits, hsound', hleft⟩ := ih hsound hentries' hidx'
    refine ⟨(item b idx).val :: visits, b', fun fuel hfuel => ?_, ?_, hsound', ?_⟩
    · obtain ⟨fuel, rfl⟩ := Nat.exists_eq_succ_of_ne_zero (Nat.ne_zero_of_lt hfuel)
      rw [val_forEachErasingFrom item _ hgo]
      simp only [hsee]
      rw [hloop fuel (Nat.lt_of_succ_lt_succ hfuel)]
      rfl
    · rw [List.map_cons, List.map_cons, hvisits, hsee]
    · rw [hleft, List.append_assoc, List.filter_cons]
      cases p (view e) <;> rfl

end Loop

end Btree

/-- On every btree that a run within the bounds reaches, a loop that erases the current item where
a predicate holds ends. It has visited every entry once, in ascending order of the keys and with
its own value, and leaves the entries where the predicate does not hold. -/
theorem btree_for_each_erasing_filters {valueSize : UInt32} {actions : List BtreeAction} {b : Btree}
    (hrun : Run Btree.BoundedStep (btreeInit valueSize) actions b) :
    (b.entries.map Prod.fst).Pairwise (· < ·) ∧
    (∀ erase : UInt32 → List Byte → Bool, ∃ visits b',
      (∀ fuel, b.count.toNat < fuel → (btreeForEachErasing fuel b erase).val = some (visits, b')) ∧
      visits.map (fun item => (item.key, item.bytes)) = b.entries ∧
      b'.entries = b.entries.filter fun e => !erase e.1 e.2) ∧
    ∀ erase : UInt32 → Bool, ∃ visits b',
      (∀ fuel, b.count.toNat < fuel → (btreeKeysForEachErasing fuel b erase).val = some (visits, b')) ∧
      visits = b.entries.map Prod.fst ∧
      b'.entries = b.entries.filter fun e => !erase e.1 := by
  obtain ⟨m, hrep⟩ := Btree.represents_of_run hrun
  have hsound := hrep.sound
  have hsplit : b.entries = [] ++ b.entries := rfl
  have hstart : (0 : UInt32).toNat = ([] : List (UInt32 × List Byte)).length := rfl
  refine ⟨hsound.entries_ascending, fun erase => ?_, fun erase => ?_⟩
  · obtain ⟨visits, b', hloop, hvisits, _, hleft⟩ :=
      Btree.forEachErasingFrom_spec forEachItem (fun item => (item.key, item.bytes)) id
        (fun e => erase e.1 e.2) (fun b idx hlt hb => hb.val_forEachItem hlt) hsound hsplit hstart
    rw [Btree.length_entries] at hloop
    rw [List.map_id] at hvisits
    exact ⟨visits, b', hloop, hvisits, hleft⟩
  · obtain ⟨visits, b', hloop, hvisits, _, hleft⟩ :=
      Btree.forEachErasingFrom_spec (fun b idx => b.readKey idx.toNat) id Prod.fst erase
        (fun b idx hlt hb => hb.val_readKey hlt) hsound hsplit hstart
    rw [Btree.length_entries] at hloop
    rw [List.map_id] at hvisits
    exact ⟨visits, b', hloop, hvisits, hleft⟩

def loopCalls : List BtreeCall :=
  [.insertNew 5 [1], .insertNew 3 [2], .insertNew 8 [1], .insertNew 9 [3]]

theorem btree_for_each_erasing_filters_short : ∃ b : Btree, ∃ visits, ∃ b' : Btree,
    b.entries = [(3, [2]), (5, [1]), (8, [1]), (9, [3])] ∧
    (∀ fuel, 4 < fuel → (btreeForEachErasing fuel b fun k v => k < 4 || v = [1]).val = some (visits, b')) ∧
    visits.map (fun item => (item.key, item.bytes)) = [(3, [2]), (5, [1]), (8, [1]), (9, [3])] ∧
    b'.entries = [(9, [3])] := by
  have hentries : ((Btree.grantedActions loopCalls).foldlM Btree.boundedAct (btreeInit 1)).map
      (fun b => (b.count, b.entries)) = some (4, [(3, [2]), (5, [1]), (8, [1]), (9, [3])]) := by
    decide +kernel
  obtain ⟨b, hrun, hb⟩ := Run.exists_of_foldlM Btree.boundedAct_step hentries
  obtain ⟨hcount, hb⟩ : b.count = 4 ∧ b.entries = [(3, [2]), (5, [1]), (8, [1]), (9, [3])] := by
    simpa only [Prod.mk.injEq] using hb
  obtain ⟨_, hloop, _⟩ := btree_for_each_erasing_filters hrun
  obtain ⟨visits, b', hends, hvisits, hleft⟩ := hloop fun k v => k < 4 || v = [1]
  rw [hcount] at hends
  rw [hb] at hvisits hleft
  exact ⟨b, visits, b', hb, hends, hvisits, hleft⟩

end CStructures
