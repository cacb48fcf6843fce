import CStructures.Proofs.VectorBooks

/-!
# Failed calls on vectors

Every function of the vector that may allocate asks for memory at most once, before it
changes anything. A call that reports failure, and a `vector_compact` whose reallocation
fails, leaves all vectors as they were, unless the 32-bit size that it asks for is 0, for which
`realloc` frees the buffer.
-/

namespace CStructures
open Lib

/-- The return values that report failure. `vector_compact` reports nothing. -/
def VectorCall.reportsFailure : VectorCall → VectorAnswer → Bool
  | .push _, .status status | .insert _ _, .status status | .resize _, .status status
  | .reserve _, .status status => status ≠ 0
  | .emplace _, .element value | .insertEmplace _ _, .element value => value.isNone
  | _, _ => false

def StoreCall.reportsFailure : StoreCall → VectorAnswer → Bool
  | .on _ call, answer => call.reportsFailure answer
  | .pushVector _ _, .status status => status ≠ 0
  | _, _ => false

def StoreCall.CompactsInVain (store : VectorStore) (answer : AllocAnswer) : StoreCall → Prop
  | .on vector .compact => answer = none ∧ (store vector).count ≠ 0
  | _ => False

def StoreCall.Fails (store : VectorStore) (answer : AllocAnswer) (call : StoreCall) : Prop :=
  call.reportsFailure (storeCall store answer call).1 ∨ call.CompactsInVain store answer

/-- The call reallocates a buffer to `(new_capacity + 1) * element_size` bytes, which is 0 in 32
bits. -/
def StoreCall.AsksForNoBytes (store : VectorStore) (call : StoreCall) : Prop :=
  (store call.vector).data.isSome ∧
    ∃ n ∈ call.newCapacity store, (store call.vector).requestSize n = 0

namespace CsVector

variable {v : CsVector} {n : UInt32} {answer : AllocAnswer}

lemma realloc_refused (v : CsVector) (index : Int64) (n : UInt32) :
    vectorRealloc v index n none = (-1, v.refused n) := by
  obtain ⟨_, hval⟩ | ⟨hsome, _⟩ := realloc_cases v index n none
  · exact hval
  · cases hsome

lemma realloc_status (v : CsVector) (index : Int64) (n : UInt32) (answer : AllocAnswer) :
    (vectorRealloc v index n answer).1 ≠ 0 ↔ answer = none := by
  obtain ⟨rfl, hval⟩ | ⟨hsome, d, hval, _⟩ := realloc_cases v index n answer
  · simp [hval]
  · simp [hval, Option.isSome_iff_ne_none.mp hsome]

/-- The vector is left alone, or its buffer has been freed. -/
lemma refused_eq (v : CsVector) (n : UInt32) :
    ¬(v.data.isSome ∧ v.requestSize n = 0) ∧ v.refused n = v ∨
      (v.data.isSome ∧ v.requestSize n = 0) ∧ v.refused n = { v with freed := true } := by
  unfold refused refuseBuffer
  split_ifs with hdata hzero
  · exact Or.inr ⟨⟨hdata, hzero⟩, rfl⟩
  · exact Or.inl ⟨fun h => hzero h.2, rfl⟩
  · exact Or.inl ⟨fun h => hdata h.1, rfl⟩

lemma refused_eq_self_iff (hlive : v.freed = false) :
    v.refused n = v ↔ ¬(v.data.isSome ∧ v.requestSize n = 0) := by
  obtain ⟨hsize, hval⟩ | ⟨hsize, hval⟩ := refused_eq v n
  · exact iff_of_true hval hsize
  · refine iff_of_false (fun h => ?_) (not_not.mpr hsize)
    have hfreed := congrArg CsVector.freed (hval.symm.trans h)
    rw [hlive] at hfreed
    cases hfreed

/-- A call that asks for room for the elements of `req`, if any, and leads to `v'`: it fails
exactly when it asks and is refused. -/
structure FailsWhen (v : CsVector) (answer : AllocAnswer) (req : Option UInt32) (failed : Prop)
    (v' : CsVector) : Prop where
  iff : failed ↔ answer = none ∧ req.isSome
  left : failed → ∃ n ∈ req, v' = v.refused n

variable {req : Option UInt32} {failed : Prop} {v' : CsVector} {r : Option UInt64 × CsVector}

lemma FailsWhen.of_granted (h : ¬(answer = none ∧ req.isSome)) (hfailed : ¬failed) :
    v.FailsWhen answer req failed v' :=
  ⟨iff_of_false hfailed h, fun hf => absurd hf hfailed⟩

lemma FailsWhen.refused (h : v.FailsWhen answer req failed v') (hfailed : failed) :
    answer = none ∧ ∃ n ∈ req, v' = v.refused n :=
  ⟨(h.iff.mp hfailed).1, h.left hfailed⟩

lemma FailsWhen.congr (h : v.FailsWhen answer req failed v') {failed' : Prop} (hiff : failed' ↔ failed) :
    v.FailsWhen answer req failed' v' :=
  ⟨hiff.trans h.iff, fun hf => h.left (hiff.mp hf)⟩

/-- The two ends of a reallocation that is made under a condition `p`. -/
lemma realloc_if (p : Prop) [Decidable p] (v w : CsVector) (index : Int64) (n : UInt32)
    (answer : AllocAnswer) :
    let r := if p then vectorRealloc v index n answer else (0, w)
    v.FailsWhen answer (if p then some n else none) (r.1 ≠ 0) r.2 := by
  intro r
  by_cases hp : p
  · have hr : r = vectorRealloc v index n answer := if_pos hp
    rw [if_pos hp, hr]
    refine ⟨?_, fun hfailed => ⟨n, rfl, ?_⟩⟩
    · rw [realloc_status]
      exact (and_iff_left rfl).symm
    · obtain rfl := (realloc_status v index n answer).mp hfailed
      rw [realloc_refused]
  · have hr : r = (0, w) := if_neg hp
    rw [if_neg hp, hr]
    exact .of_granted (fun h => by cases h.2) (fun h => h rfl)

lemma emplaced_fails (v w : CsVector) (index : Int64) (answer : AllocAnswer)
    (pointer : CsVector → UInt64) :
    let r := if v.count = v.capacity then vectorRealloc v index (v.count * vecExpandFactor) answer
      else (0, w)
    let e : Option UInt64 × CsVector := if r.1 ≠ 0 then (none, r.2)
      else (some (pointer r.2), { r.2 with count := r.2.count + 1 })
    v.FailsWhen answer (if v.count = v.capacity then some (v.count * vecExpandFactor) else none)
      (e.1 = none) e.2 := by
  intro r e
  have hfails : v.FailsWhen answer _ (r.1 ≠ 0) r.2 :=
    realloc_if (v.count = v.capacity) v w index (v.count * vecExpandFactor) answer
  by_cases hst : r.1 ≠ 0
  · have he : e = (none, r.2) := if_pos hst
    rw [he]
    exact hfails.congr (iff_of_true rfl hst)
  · have he : e = (some (pointer r.2), { r.2 with count := r.2.count + 1 }) := if_neg hst
    rw [he]
    exact .of_granted (mt hfails.iff.mpr hst) (Option.some_ne_none _)

lemma emplace_fails (v : CsVector) (answer : AllocAnswer) :
    v.FailsWhen answer (if v.count = v.capacity then some (v.count * vecExpandFactor) else none)
      ((vectorEmplace v answer).1 = none) (vectorEmplace v answer).2 :=
  emplaced_fails v v vecInvalidIndex answer fun v => (v.elementSize * v.count).toUInt64

lemma insertEmplace_fails (v : CsVector) (index : Int64) (answer : AllocAnswer) :
    v.FailsWhen answer (if v.count = v.capacity then some (v.count * vecExpandFactor) else none)
      ((vectorInsertEmplace v index answer).1 = none) (vectorInsertEmplace v index answer).2 :=
  emplaced_fails v _ index answer fun v => (index * toIdx v.elementSize).toUInt64

lemma FailsWhen.copy (h : v.FailsWhen answer req (r.1 = none) r.2) (value : List Byte) :
    v.FailsWhen answer req ((copyEmplaced value r).1 ≠ 0) (copyEmplaced value r).2 := by
  obtain ⟨_ | e, w⟩ := r
  · exact h.congr (iff_of_true (by simp [copyEmplaced]) rfl)
  · exact .of_granted (mt h.iff.mpr (Option.some_ne_none e)) (by simp [copyEmplaced])

lemma FailsWhen.write (h : v.FailsWhen answer req (r.1 = none) r.2) {call : VectorCall} (value : List Byte)
    (hcall : ∀ x, call.reportsFailure (.element x) = x.isNone) :
    v.FailsWhen answer req (call.reportsFailure (writeEmplaced value r).1) (writeEmplaced value r).2 := by
  obtain ⟨_ | e, w⟩ := r
  · exact h.congr (iff_of_true (hcall none) rfl)
  · exact .of_granted (mt h.iff.mpr (Option.some_ne_none e)) (by simp [writeEmplaced, hcall])

lemma FailsWhen.status {status : Int} (h : v.FailsWhen answer req (status ≠ 0) v') {call : VectorCall}
    (hcall : call.reportsFailure (.status status) = decide (status ≠ 0)) :
    v.FailsWhen answer req (call.reportsFailure (.status status)) v' := by
  rw [hcall, decide_eq_true_iff]
  exact h

lemma reserve_fails (v : CsVector) (size : UInt32) (answer : AllocAnswer) :
    v.FailsWhen answer (if v.capacity < size then some size else none)
      ((vectorReserve v size answer).1 ≠ 0) (vectorReserve v size answer).2 := by
  have hfails := realloc_if (v.capacity < size) v v vecInvalidIndex size answer
  unfold vectorReserve
  by_cases hlt : v.capacity < size
  · simp only [if_pos hlt] at hfails ⊢
    split_ifs with hst
    · exact hfails.congr (iff_of_true (by simp) hst)
    · exact .of_granted (mt hfails.iff.mpr hst) (by simp)
  · simp only [if_neg hlt] at hfails ⊢
    exact hfails

lemma resize_fails (v : CsVector) (size : UInt32) (answer : AllocAnswer) :
    v.FailsWhen answer (if v.capacity < size then some size else none)
      ((vectorResize v size answer).1 ≠ 0) (vectorResize v size answer).2 := by
  have h := reserve_fails v size answer
  unfold vectorResize
  by_cases hst : (vectorReserve v size answer).1 ≠ 0
  · simp only [if_pos hst]
    exact h.congr (iff_of_true (by simp) hst)
  · simp only [if_neg hst]
    exact .of_granted (mt h.iff.mpr hst) (by simp)

lemma compact_fails (v : CsVector) (answer : AllocAnswer) :
    v.FailsWhen answer (VectorCall.compact.newCapacity v) (answer = none ∧ v.count ≠ 0)
      (vectorCompact v answer) := by
  unfold VectorCall.newCapacity vectorCompact
  by_cases hzero : v.count = 0
  · rw [if_pos hzero, if_pos hzero]
    exact .of_granted (fun h => by cases h.2) (fun h => h.2 hzero)
  · rw [if_neg hzero, if_neg hzero]
    refine ⟨and_congr_right fun _ => iff_of_true hzero rfl, ?_⟩
    rintro ⟨rfl, _⟩
    exact ⟨v.count, rfl, by rw [realloc_refused]⟩

theorem call_fails (v : CsVector) (answer : AllocAnswer) {call : VectorCall} (hcompact : call ≠ .compact) :
    v.FailsWhen answer (call.newCapacity v) (call.reportsFailure (vectorCall v answer call).1)
      (vectorCall v answer call).2 := by
  cases call with
  | push value => exact ((emplace_fails v answer).copy value).status rfl
  | emplace value => exact (emplace_fails v answer).write value fun _ => rfl
  | insert index value => exact ((insertEmplace_fails v index answer).copy value).status rfl
  | insertEmplace index value => exact (insertEmplace_fails v index answer).write value fun _ => rfl
  | resize size => exact (resize_fails v size answer).status rfl
  | reserve size => exact (reserve_fails v size answer).status rfl
  | compact => exact absurd rfl hcompact
  | _ => exact .of_granted (fun h => by cases h.2) (by simp [VectorCall.reportsFailure])

end CsVector

instance (store : VectorStore) (call : StoreCall) : Decidable (call.AsksForNoBytes store) :=
  inferInstanceAs (Decidable (_ ∧ _))

/-- `vector_push_vector` fails for a source of another element size, which asks for nothing, and
for want of memory. -/
lemma pushVector_fails {store : VectorStore} {i j : Nat} {answer : AllocAnswer}
    (hfail : (vectorPushVector store i j answer).1 ≠ 0) :
    (StoreCall.pushVector i j).newCapacity store = none ∧ (vectorPushVector store i j answer).2 = store ∨
      answer = none ∧ ∃ n ∈ (StoreCall.pushVector i j).newCapacity store,
        (vectorPushVector store i j answer).2 = Function.update store i ((store i).refused n) := by
  by_cases hes : (store i).elementSize ≠ (store j).elementSize
  · have hval : vectorPushVector store i j answer = (-2, store) := if_pos hes
    rw [hval]
    exact Or.inl ⟨if_pos hes, rfl⟩
  · have hcases := CsVector.realloc_if ((store i).count + (store j).count > (store i).capacity)
      (store i) (store i) vecInvalidIndex ((store i).count + (store j).count) answer
    have hreq : (StoreCall.pushVector i j).newCapacity store = if
        (store i).count + (store j).count > (store i).capacity then some ((store i).count + (store j).count)
      else none := if_neg hes
    unfold vectorPushVector at hfail ⊢
    rw [if_neg hes] at hfail ⊢
    dsimp only at hcases hfail ⊢
    by_cases hst : (if (store i).count + (store j).count > (store i).capacity then vectorRealloc (store i)
      vecInvalidIndex ((store i).count + (store j).count) answer else (0, store i)).1 ≠ 0
    · obtain ⟨hnone, n, hn, hval⟩ := hcases.refused hst
      rw [if_pos hst, hreq, hval]
      exact Or.inr ⟨hnone, n, hn, rfl⟩
    · rw [if_neg hst] at hfail
      exact absurd rfl hfail

/-- A call that fails asks for nothing and leaves every vector as it was, or is refused memory for
one of them. -/
theorem StoreCall.Fails.cases {store : VectorStore} {answer : AllocAnswer} {call : StoreCall}
    (hfail : call.Fails store answer) :
    call.newCapacity store = none ∧ (storeCall store answer call).2 = store ∨
      answer = none ∧ ∃ n ∈ call.newCapacity store, (storeCall store answer call).2 =
        Function.update store call.vector ((store call.vector).refused n) := by
  rcases hfail with hreport | hvain
  · cases call with
    | pushVector i j => exact pushVector_fails (decide_eq_true_iff.mp hreport)
    | on i call =>
      by_cases hcompact : call = .compact
      · subst hcompact
        cases hreport
      · obtain ⟨hnone, n, hn, hval⟩ := (CsVector.call_fails (store i) answer hcompact).refused hreport
        exact Or.inr ⟨hnone, n, hn, congrArg (Function.update store i) hval⟩
  · cases call with
    | pushVector i j => exact hvain.elim
    | on i call =>
      cases call with
      | compact =>
        obtain ⟨hnone, n, hn, hval⟩ := (CsVector.compact_fails (store i) answer).refused hvain
        exact Or.inr ⟨hnone, n, hn, congrArg (Function.update store i) hval⟩
      | _ => exact hvain.elim

/-- A call that fails leaves live vectors as they were exactly when it does not ask for no bytes. -/
theorem StoreCall.Fails.same_iff {store : VectorStore} {answer : AllocAnswer} {call : StoreCall}
    (hfail : call.Fails store answer) (hlive : ∀ i, (store i).freed = false) :
    (storeCall store answer call).2 = store ↔ ¬call.AsksForNoBytes store := by
  unfold StoreCall.AsksForNoBytes
  obtain ⟨hnone, hval⟩ | ⟨_, n, hn, hval⟩ := hfail.cases
  · refine iff_of_true hval ?_
    rintro ⟨_, n, hn, _⟩
    rw [hnone] at hn
    cases hn
  · rw [hval, Function.update_eq_self_iff, CsVector.refused_eq_self_iff (hlive _), Option.mem_def.mp hn]
    simp only [Option.mem_def, Option.some.injEq, exists_eq_left']

/-- One call with the answer that the allocator has for it. -/
def AnsweredCallStep (store : VectorStore) (l : (StoreCall × AllocAnswer) × VectorAnswer)
    (store' : VectorStore) : Prop :=
  storeCall store l.1.2 l.1.1 = (l.2, store')

/-- A call that does not have its buffer freed by a refused reallocation. -/
def SavingStep (store : VectorStore) (l : (StoreCall × AllocAnswer) × VectorAnswer)
    (store' : VectorStore) : Prop :=
  ¬(l.1.2 = none ∧ l.1.1.AsksForNoBytes store) ∧ AnsweredCallStep store l store'

section Runs

variable {store store' : VectorStore} {ls : List ((StoreCall × AllocAnswer) × VectorAnswer)}

lemma refused_freed {v : CsVector} {n : UInt32} (h : ¬(v.data.isSome ∧ v.requestSize n = 0)) :
    (v.refused n).freed = v.freed := by
  obtain ⟨_, hval⟩ | ⟨hsize, _⟩ := CsVector.refused_eq v n
  · rw [hval]
  · exact absurd hsize h

lemma SavingStep.live {l : (StoreCall × AllocAnswer) × VectorAnswer} (hlive : ∀ i, (store i).freed = false)
    (hstep : SavingStep store l store') : ∀ i, (store' i).freed = false := by
  obtain ⟨⟨call, answer⟩, result⟩ := l
  obtain ⟨hsaves, hval⟩ := hstep
  have hstore : store' = (storeCall store answer call).2 := (congrArg Prod.snd hval).symm
  have hrefused : ∀ n ∈ call.newCapacity store, answer = none →
      ((store call.vector).refused n).freed = (store call.vector).freed := fun n hn hnone =>
    refused_freed fun h => hsaves ⟨hnone, h.1, n, hn, h.2⟩
  intro k
  rw [hstore, ← hlive k]
  cases call with
  | on i call =>
    exact CsVector.Unwritten.update (CsVector.Unwritten.call (fun _ _ _ _ => rfl) (store i) hrefused) k
  | pushVector i j => exact CsVector.Unwritten.pushVector (fun _ _ _ _ => rfl) store i j k hrefused

/-- A run in which calls fail leads to the same vectors, with the same answers of all other
calls, without them. -/
theorem run_without_failures (hlive : ∀ i, (store i).freed = false) (h : Run SavingStep store ls store') :
    Run SavingStep store (ls.filter fun l => !l.1.1.reportsFailure l.2) store' := by
  apply h.filter (fun store => ∀ i, (store i).freed = false) _ _ hlive
  intro store l store' hlive hstep
  refine ⟨hstep.live hlive, fun hreport => ?_⟩
  have hval : storeCall store l.1.2 l.1.1 = (l.2, store') := hstep.2
  have hfail : l.1.1.Fails store l.1.2 := by
    refine Or.inl ?_
    rw [hval]
    simpa using hreport
  obtain ⟨_, hsame⟩ | ⟨hnone, _⟩ := hfail.cases
  · rwa [hval] at hsame
  · have hsame := (hfail.same_iff hlive).mpr fun hasks => hstep.1 ⟨hnone, hasks⟩
    rwa [hval] at hsame

end Runs

/-- In every state that is reached without such a loss, with any answers of the allocator, a call
that reports failure, and a `vector_compact` whose reallocation fails, changes no vector, neither
its buffer nor its count, capacity and elements, exactly when it does not reallocate an existing
buffer to no bytes. -/
theorem vector_failure_changes_nothing_iff {elementSize : Nat → UInt32}
    {ls : List ((StoreCall × AllocAnswer) × VectorAnswer)} {store : VectorStore}
    (hrun : Run SavingStep (fun i => vectorInit (elementSize i)) ls store) {answer : AllocAnswer}
    {call : StoreCall} (hfail : call.Fails store answer) :
    (storeCall store answer call).2 = store ↔ ¬call.AsksForNoBytes store :=
  hfail.same_iff (hrun.invariant (fun store => ∀ i, (store i).freed = false)
    (fun _ _ _ hlive hstep => hstep.live hlive) fun _ => rfl)

def savingExec (store : VectorStore) (l : StoreCall × AllocAnswer) : Option (VectorAnswer × VectorStore) :=
  if l.2.isNone ∧ l.1.AsksForNoBytes store then none else some (storeCall store l.2 l.1)

lemma savingExec_step (store : VectorStore) (l : StoreCall × AllocAnswer) (result : VectorAnswer)
    (store' : VectorStore) (h : savingExec store l = some (result, store')) :
    SavingStep store (l, result) store' := by
  unfold savingExec at h
  split_ifs at h with hasks
  refine ⟨fun hlost => hasks ⟨?_, hlost.2⟩, Option.some.inj h⟩
  rw [hlost.1]
  rfl

/-- Vector 0 is filled, and the other two are filled in part. Vector 1 has larger elements, and is
refused its first buffer. -/
def fillingVectorCalls : List (StoreCall × AllocAnswer) :=
  [(.on 0 (.reserve 2), some ⟨16, fun _ => 0⟩), (.on 0 (.push [1]), none), (.on 0 (.push [2]), none),
    (.on 1 (.push [1, 2, 3, 4]), none), (.on 1 (.push [1, 2, 3, 4]), some ⟨4096, fun _ => 0⟩),
    (.on 2 (.push [5]), some ⟨8192, fun _ => 0⟩)]

/-- The calls that need memory, and one with a source of another element size. -/
def refusedVectorCalls : List StoreCall :=
  [.on 0 (.push [4]), .on 0 (.emplace [4]), .on 0 (.insert 1 [4]), .on 0 (.insertEmplace 0 [4]),
    .on 1 (.reserve 100), .on 1 (.resize 33), .pushVector 0 2, .pushVector 0 1]

theorem vector_failure_changes_nothing_full : ∃ ls, ∃ store : VectorStore,
    Run SavingStep (fun i => vectorInit (if i = 1 then 4 else 1)) ls store ∧
    (store 0).count = (store 0).capacity ∧ (store 1).count < (store 1).capacity ∧
    (∀ call ∈ refusedVectorCalls, (storeCall store none call).2 = store) ∧
    (storeCall store none (.on 1 .compact)).2 = store := by
  have hfilled : (runCalls savingExec (fun i => vectorInit (if i = 1 then 4 else 1)) fillingVectorCalls).map
      (fun r => decide ((r.2 0).count = 2 ∧ (r.2 0).capacity = 2 ∧ (r.2 1).count = 1 ∧ (r.2 1).capacity = 32 ∧
        (∀ call ∈ refusedVectorCalls, call.reportsFailure (storeCall r.2 none call).1 ∧ ¬call.AsksForNoBytes r.2) ∧
        ¬(StoreCall.on 1 .compact).AsksForNoBytes r.2)) = some true := by decide +kernel
  obtain ⟨ls, store, hrun, hview⟩ := Run.exists_of_runCalls savingExec_step hfilled
  obtain ⟨hcount, hcap, hcount', hcap', hrefused, hcompact⟩ := of_decide_eq_true hview
  refine ⟨ls, store, hrun, hcount.trans hcap.symm, ?_, fun call hcall => ?_, ?_⟩
  · rw [hcount', hcap']
    decide
  · obtain ⟨hreport, hasks⟩ := hrefused call hcall
    exact (vector_failure_changes_nothing_iff hrun (Or.inl hreport)).mpr hasks
  · have hvain : (StoreCall.on 1 .compact).CompactsInVain store none := ⟨rfl, by rw [hcount']; decide⟩
    exact (vector_failure_changes_nothing_iff hrun (Or.inr hvain)).mpr hcompact

/-- A vector with one element has its buffer freed by a reservation that reports failure:
4294967296 elements of 4 bytes are 0 bytes. -/
theorem vector_failure_frees_buffer : ∃ store : VectorStore,
    Run SavingStep (fun _ => vectorInit 4)
      [((.on 0 (.push [1, 2, 3, 4]), some ⟨16, fun _ => 0⟩), .status 0)] store ∧
    ((store 0).capacity.toNat + 1) * (store 0).elementSize.toNat < 2 ^ 32 ∧
    (storeCall store none (.on 0 (.reserve 4294967295))).1 = .status (-1) ∧
    ((storeCall store none (.on 0 (.reserve 4294967295))).2 0).freed = true ∧
    (storeCall store none (.on 0 (.reserve 4294967295))).2 ≠ store := by
  have hgranted : ¬((some ⟨16, fun _ => 0⟩ : AllocAnswer) = none ∧
      (StoreCall.on 0 (.push [1, 2, 3, 4])).AsksForNoBytes fun _ => vectorInit 4) := fun h => by cases h.1
  refine ⟨_, .cons ⟨hgranted, rfl⟩ (.nil _), by decide, by decide, by decide, fun hsame => ?_⟩
  have hfreed := congrArg (fun store => (store 0).freed) hsame
  revert hfreed
  decide

end CStructures
