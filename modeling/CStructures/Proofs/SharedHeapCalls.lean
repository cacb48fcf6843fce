import CStructures.Proofs.SharedHeapClients

/-!
# How often clients call the heap

A call of a client makes at most two calls of the heap, so whatever each of these adds to a
counter, a run adds at most twice as much for every call.
-/

namespace CStructures
open Lib

section Programs

variable {σ : Type} {H : HeapApi σ} {good : σ → Prop} {count : σ → Nat}

lemma Request.perform_spends (hH : H.Counts good count) (req : Request) :
    Spends good count 1 (req.perform H) := by
  cases req with
  | nothing => exact Spends.pure 1 none
  | malloc size => exact hH.malloc size
  | realloc p newSize => exact hH.realloc p newSize
  | free p => exact (hH.free p).thenPure fun _ => none

lemma hashmapAllocator_malloc_spends (hH : H.Counts good count) (n : UInt64) :
    Spends good count 1 ((hashmapAllocator H).malloc n) :=
  (hH.malloc n).thenPure _

lemma hashmapInitWithOptions_spends (hH : H.Counts good count) (keySize valueSize tableCount : UInt32)
    (hash : Hash32Func) :
    Spends good count 1 (hashmapInitWithOptions (hashmapAllocator H) keySize valueSize tableCount hash) := by
  intro s r s' hs hinit
  obtain ⟨b, hmalloc, _⟩ := Hashmap.hashmapInitWithOptions_malloc hinit
  exact hashmapAllocator_malloc_spends hH _ s b s' hs hmalloc

/-- An insertion that expands the table allocates the new one and frees the old one. -/
lemma hashmapOnHeap_spends (hH : H.Counts good count) {hm : Hashmap} (hv : hm.Valid) (fuel : Nat)
    (call : HashmapCall) : Spends good count 2 (hashmapOnHeap H fuel hm call) := by
  intro s r s' hs hprog
  obtain ⟨⟨answer, hm', s''⟩, hcall, heq⟩ := Option.map_eq_some_iff.mp hprog
  obtain ⟨rfl, rfl⟩ := Prod.mk.inj heq
  have hsame : s'' = s → good s'' ∧ count s'' ≤ count s + 2 := by
    rintro rfl
    exact ⟨hs, Nat.le_add_right _ _⟩
  cases call with
  | insert key value =>
    obtain ⟨status, _, h⟩ := hashmapCall_insert.mp hcall
    rcases Hashmap.hashmapInsert_cases hv h with ⟨_, _, _, hn⟩ | ⟨grown, fuel', hgrown, _, _⟩
    · exact ((hashmapAllocator_malloc_spends hH _).mono one_le_two) s none s'' hs hn
    rcases hgrown with ⟨_, hunmoved, _⟩ | ⟨_, _, b, s1, hmalloc, hfree, _⟩
    · exact hsame hunmoved
    · obtain ⟨hs1, hle⟩ := hashmapAllocator_malloc_spends hH _ s _ s1 hs hmalloc
      obtain ⟨hs2, hle'⟩ := hH.free _ s1 _ s'' hs1 hfree
      exact ⟨hs2, hle'.trans (Nat.add_le_add_right hle 1)⟩
  | find key =>
    obtain ⟨_, _, hc, _⟩ := hashmapCall_find.mp hcall
    exact hsame (Prod.mk.inj hc).2
  | erase key =>
    obtain ⟨_, _, hunmoved, _⟩ := hashmapCall_erase.mp hcall
    exact hsame hunmoved

lemma containerInit_spends (hH : H.Counts good count) (kind : ContainerKind) :
    Spends good count 1 (containerInit H kind) := by
  cases kind with
  | vector elementSize => exact Spends.pure 1 _
  | btree valueSize => exact Spends.pure 1 _
  | hashmap keySize valueSize tableCount hash =>
    exact (hashmapInitWithOptions_spends hH keySize valueSize tableCount hash).thenPure _

/-- A header, and the table of a hashmap. -/
lemma containerCreate_spends (hH : H.Counts good count) (kind : ContainerKind) :
    Spends good count 2 (containerCreate H kind) := by
  cases kind with
  | vector elementSize =>
    have hcreate : Spends good count 2 (vectorCreate H elementSize) := by
      refine (hH.malloc 24).bind (l := 1) fun header => ?_
      cases header <;> exact Spends.pure 1 _
    exact hcreate.thenPure _
  | btree valueSize =>
    have hcreate : Spends good count 2 (btreeCreate H valueSize) := by
      refine (hH.malloc 24).bind (l := 1) fun header => ?_
      cases header <;> exact Spends.pure 1 _
    exact hcreate.thenPure _
  | hashmap keySize valueSize tableCount hash =>
    have hcreate : Spends good count 2 (hashmapCreateOnHeap H keySize valueSize tableCount hash) := by
      refine (hH.malloc 32).bind (l := 1) fun header => ?_
      cases header with
      | none => exact Spends.pure 1 _
      | some header => exact (hashmapInitWithOptions_spends hH keySize valueSize tableCount hash).thenPure _
    exact hcreate.thenPure _

/-- The buffer and the header. -/
lemma containerDestroy_spends (hH : H.Counts good count) (handle : Handle) :
    Spends good count 2 (containerDestroy H handle) := by
  have hdeinit : Spends good count 1 (containerDeinit H handle.container) := by
    cases handle.container with
    | vector v => exact (Request.perform_spends hH (xfree v.data)).thenPure _
    | btree b => exact ((Request.perform_spends hH (btreeRequest (btreeClear b) .compact)).thenPure _).thenPure _
    | hashmap hm => exact hH.free _
  refine hdeinit.bind (l := 1) fun _ => ?_
  cases handle.header with
  | none => exact Spends.pure 1 _
  | some header => exact hH.free header

theorem clientCall_spends (hH : H.Counts good count) {client : Client} {a : AbstractClient}
    (hrep : client.Represents a) (fuel : Nat) (call : ClientCall) :
    Spends good count 2 (clientCall H fuel client call) := by
  have hnever : Spends good count 2 (fun _ => none : StateT σ Option (ClientAnswer × Client)) := by
    rintro s r s' _ ⟨⟩
  cases call with
  | init kind => exact ((containerInit_spends hH kind).thenPure _).mono one_le_two
  | create kind => exact (containerCreate_spends hH kind).thenPure _
  | stringCreate =>
    have hcreate : Spends good count 2 (stringCreate H) := by
      refine (hH.malloc 24).bind (l := 1) fun str => ?_
      cases str <;> exact Spends.pure 1 _
    exact hcreate.thenPure _
  | vector i call =>
    rw [clientCall]
    split
    · next v hi => exact (((Request.perform_spends hH (vectorRequest v call)).thenPure _).thenPure _).mono one_le_two
    · exact hnever
  | pushVector i j =>
    rw [clientCall]
    split
    · exact (((Request.perform_spends hH _).thenPure _).thenPure _).mono one_le_two
    · exact hnever
  | btree i call =>
    rw [clientCall]
    split
    · next b hi => exact (((Request.perform_spends hH (btreeRequest b call)).thenPure _).thenPure _).mono one_le_two
    · exact hnever
  | hashmap i call =>
    rw [clientCall]
    split
    · next hm hi =>
      obtain ⟨c, _, hhm⟩ := hrep.get hi
      cases c with
      | vector size l => exact hhm.elim
      | btree m => exact hhm.elim
      | hashmap m => exact (hashmapOnHeap_spends hH hhm.1 fuel call).thenPure _
    · exact hnever
  | destroy i =>
    rw [clientCall]
    split
    · next handle hi => exact (containerDestroy_spends hH handle).thenPure _
    · exact hnever

end Programs

/-- `inv` is what the ownership of blocks rests on, and `good` what the counter does. -/
theorem ClientStep.run_spends {σ : Type} {H : Nat → HeapApi σ} {inv : σ → BlockMap → Prop} {good : σ → Prop}
    {count : σ → Nat} {c c' : Client × σ} {a : AbstractClient} {ls : List (ClientCall × ClientAnswer)}
    (hH : ∀ fuel, (H fuel).Keeps Grant.addr inv) (hcounts : ∀ fuel, (H fuel).Counts good count)
    (hrep : c.1.Represents a) (howns : Client.OwnsHeap inv c) (hgood : good c.2)
    (hrun : Run (ClientStep H) c ls c') : count c'.2 ≤ count c.2 + 2 * ls.length := by
  induction hrun generalizing a with
  | nil c => exact le_rfl
  | @cons c c₁ c' l ls hstep _ ih =>
    obtain ⟨a₁, _, hrep₁, howns₁, _⟩ := hstep.acts hH hrep howns
    obtain ⟨_, ⟨fuel, hcall⟩, _⟩ := hstep
    obtain ⟨hgood₁, hone⟩ := clientCall_spends (hcounts fuel) hrep fuel l.1 c.2 _ c₁.2 hgood hcall
    have hrest := ih hrep₁ howns₁ hgood₁
    rw [List.length_cons]
    omega

end CStructures
