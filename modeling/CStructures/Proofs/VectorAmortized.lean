import CStructures.Lib.Amortized
import CStructures.Proofs.SharedHeapRequests
import CStructures.Proofs.VectorFailure
import Mathlib.Tactic.Ring

/-!
# The cost of growing a vector

A full vector doubles its buffer, so that every insertion pays for moving two elements to a new
buffer, however the calls follow each other. `vector_push_vector` makes room for no more than the
new elements and pays again with every call.
-/

namespace CStructures
open Lib

/-- The moved elements that a call pays for. -/
def VectorCall.price : VectorCall → Nat
  | .push _ | .emplace _ | .insert _ _ | .insertEmplace _ _ => 2
  | .reserve size => size.toNat
  | .resize size => 2 * size.toNat
  | _ => 0

namespace CsVector

variable {v v' : CsVector} {call : VectorCall} {answer : AllocAnswer} {l : VectorCall × AllocAnswer}
  {moved : Nat}

def room (v : CsVector) : Room := ⟨v.count.toNat, v.capacity.toNat⟩

/-- The number of elements that `REALLOC` moves to another buffer. -/
def movedElements (v : CsVector) (l : VectorCall × AllocAnswer) : Nat :=
  match vectorRequest v l.1, l.2 with
  | .realloc _ _, some _ => v.count.toNat
  | _, _ => 0

/-- One call other than `vector_compact`, with any answer of the allocator. -/
def GrowthStep (v : CsVector) (l : VectorCall × AllocAnswer) (v' : CsVector) : Prop :=
  l.1 ≠ .compact ∧ l.1.Fits v ∧ l.1.Affordable v ∧ v' = (vectorCall v l.2 l.1).2

lemma movedElements_le (v : CsVector) (l : VectorCall × AllocAnswer) : v.movedElements l ≤ v.count.toNat := by
  unfold movedElements
  split
  · exact le_rfl
  · exact Nat.zero_le _

lemma movedElements_refused (v : CsVector) (call : VectorCall) : v.movedElements (call, none) = 0 := by
  unfold movedElements
  split
  · next hanswer => cases hanswer
  · rfl

lemma movedElements_of_nothing (h : vectorRequest v call = .nothing) : v.movedElements (call, answer) = 0 := by
  rw [movedElements, h]

lemma movedElements_of_xfree (h : vectorRequest v call = xfree v.data) : v.movedElements (call, answer) = 0 := by
  rw [movedElements, h]
  cases v.data <;> rfl

lemma room_congr (hbooks : v'.books = v.books) : v'.room = v.room := by
  change (⟨v'.books.count.toNat, v'.books.capacity.toNat⟩ : Room) = _
  rw [hbooks]
  rfl

lemma pushed_doubles (hgrow : v.count = v.capacity → 2 * v.count.toNat < 2 ^ 32)
    (hmoved : moved ≤ v.count.toNat) (hroom : v.count ≠ v.capacity → moved = 0)
    (hbooks : v'.books = v.books.pushed) : Doubles v.room moved 2 v'.room := by
  have hcount : v'.count = v.count + 1 := congrArg Books.count hbooks
  have hsucc : v'.count.toNat ≤ v.count.toNat + 1 := by
    rw [hcount, UInt32.toNat_add]
    exact Nat.mod_le _ _
  have hcap : v'.capacity = v.books.pushed.capacity := congrArg Books.capacity hbooks
  unfold Books.pushed at hcap
  by_cases hfull : v.count = v.capacity
  · rw [if_pos (show v.books.count = v.books.capacity from hfull)] at hcap
    refine .grow (congrArg UInt32.toNat hfull) ?_ hmoved hsucc
    have hdouble : (v.count * vecExpandFactor).toNat = v.count.toNat * 2 := by
      rw [UInt32.toNat_mul]
      exact Nat.mod_eq_of_lt (by have := hgrow hfull; change _ * 2 < _; omega)
    rw [hcap]
    change _ ≤ (v.books.reallocCapacity (v.count * vecExpandFactor)).toNat
    unfold Books.reallocCapacity
    rw [← hfull]
    split_ifs with hfirst
    · have hzero := congrArg UInt32.toNat hfirst.2
      rw [hdouble] at hzero
      change _ = 0 at hzero
      omega
    · omega
  · rw [if_neg (show ¬v.books.count = v.books.capacity from hfull)] at hcap
    have hcap : v'.capacity = v.capacity := hcap
    rw [hroom hfull, room, room, hcap]
    exact .add hsucc

lemma emplaced_doubles (hgrow : v.count = v.capacity → 2 * v.count.toNat < 2 ^ 32)
    {r : Option UInt64 × CsVector} {req : Option UInt32} (hr : v.EmplacesBooks r)
    (hfails : v.FailsWhen answer req (r.1 = none) r.2)
    (hrequest : v.count ≠ v.capacity → vectorRequest v call = .nothing) :
    Doubles v.room (v.movedElements (call, answer)) 2 r.2.room := by
  rcases hr with ⟨hnone, hbooks⟩ | ⟨p, hp, hbooks⟩
  · obtain ⟨rfl, _⟩ := hfails.iff.mp hnone
    rw [movedElements_refused, room_congr hbooks]
    exact .keep le_rfl
  · exact pushed_doubles hgrow (movedElements_le _ _)
      (fun hne => movedElements_of_nothing (hrequest hne)) hbooks

lemma room_copyEmplaced (value : List Byte) (r : Option UInt64 × CsVector) :
    (copyEmplaced value r).2.room = r.2.room := by
  obtain ⟨_ | e, w⟩ := r <;> rfl

lemma room_writeEmplaced (value : List Byte) (r : Option UInt64 × CsVector) :
    (writeEmplaced value r).2.room = r.2.room := by
  obtain ⟨_ | e, w⟩ := r <;> rfl

lemma reserve_doubles (h : v.Sound) (n : UInt32) (answer : AllocAnswer) :
    Doubles v.room (v.movedElements (.reserve n, answer)) n.toNat (vectorReserve v n answer).2.room := by
  rcases reserve_books v n answer with hval | ⟨v', hval, hbooks⟩
  · have hrefused : answer = none := by
      refine ((reserve_fails v n answer).iff.mp ?_).1
      rw [hval]
      exact Int.neg_ne_zero.mpr one_ne_zero
    rw [hval, hrefused, movedElements_refused, room_congr (books_refused v n)]
    exact .keep le_rfl
  · have hcount : v'.count = v.count := (congrArg Books.count hbooks).trans (reserved_count _ _)
    have hcap : v'.capacity = (v.books.reserved n).capacity := congrArg Books.capacity hbooks
    unfold Books.reserved at hcap
    rw [hval, room, room, hcount, hcap]
    by_cases hlt : v.capacity < n
    · rw [if_pos (show v.books.capacity < n from hlt)]
      exact .reserve h.count_le (UInt32.lt_iff_toNat_lt.mp hlt) le_rfl (movedElements_le _ _) le_rfl
    · have hrequest : vectorRequest v (.reserve n) = .nothing := if_neg hlt
      rw [if_neg (show ¬v.books.capacity < n from hlt), movedElements_of_nothing hrequest]
      exact .keep le_rfl

lemma resize_doubles (h : v.Sound) (n : UInt32) (answer : AllocAnswer) :
    Doubles v.room (v.movedElements (.resize n, answer)) (2 * n.toNat) (vectorResize v n answer).2.room := by
  rcases resize_books v n answer with hval | ⟨v', hval, hbooks⟩
  · have hrefused : answer = none := by
      refine ((resize_fails v n answer).iff.mp ?_).1
      rw [hval]
      exact Int.neg_ne_zero.mpr one_ne_zero
    rw [hval, hrefused, movedElements_refused, room_congr (books_refused v n)]
    exact .keep le_rfl
  · have hcount : v'.count = n := congrArg Books.count hbooks
    have hcap : v'.capacity = (v.books.reserved n).capacity := congrArg Books.capacity hbooks
    unfold Books.reserved at hcap
    rw [hval, room, room, hcount, hcap]
    by_cases hlt : v.capacity < n
    · rw [if_pos (show v.books.capacity < n from hlt)]
      exact .resize h.count_le (UInt32.lt_iff_toNat_lt.mp hlt).le le_rfl (movedElements_le _ _)
        (Or.inl le_rfl)
    · have hrequest : vectorRequest v (.resize n) = .nothing := if_neg hlt
      rw [if_neg (show ¬v.books.capacity < n from hlt), movedElements_of_nothing hrequest]
      exact .resize h.count_le le_rfl (UInt32.le_iff_toNat_le.mp (not_lt.mp hlt)) (Nat.zero_le _)
        (Or.inr rfl)

lemma keeps_doubles (hrequest : vectorRequest v call = .nothing) {price : Nat}
    (hcap : v'.capacity = v.capacity) (hcount : v'.count.toNat ≤ v.count.toNat) :
    Doubles v.room (v.movedElements (call, answer)) price v'.room := by
  rw [movedElements_of_nothing hrequest, room, room, hcap]
  exact .keep hcount

theorem GrowthStep.doubles (h : v.Sound) (hstep : GrowthStep v l v') :
    Doubles v.room (v.movedElements l) l.1.price v'.room := by
  obtain ⟨call, answer⟩ := l
  obtain ⟨hcompact, hfits, haff, rfl⟩ := hstep
  have hwrap := noWrap_of_affordable h haff
  have hpred : 0 < v.count.toNat → (v.count - 1).toNat ≤ v.count.toNat := fun hpos => by
    rw [toNat_pred hpos]
    exact Nat.sub_le _ _
  cases call with
  | push value =>
    change Doubles _ _ _ (copyEmplaced value _).2.room
    rw [room_copyEmplaced]
    exact emplaced_doubles hwrap (emplace_books v answer) (emplace_fails v answer) fun hne => if_neg hne
  | emplace value =>
    change Doubles _ _ _ (writeEmplaced value _).2.room
    rw [room_writeEmplaced]
    exact emplaced_doubles hwrap (emplace_books v answer) (emplace_fails v answer) fun hne => if_neg hne
  | insert index value =>
    change Doubles _ _ _ (copyEmplaced value _).2.room
    rw [room_copyEmplaced]
    exact emplaced_doubles hwrap (insertEmplace_books v index answer) (insertEmplace_fails v index answer)
      fun hne => if_neg hne
  | insertEmplace index value =>
    change Doubles _ _ _ (writeEmplaced value _).2.room
    rw [room_writeEmplaced]
    exact emplaced_doubles hwrap (insertEmplace_books v index answer) (insertEmplace_fails v index answer)
      fun hne => if_neg hne
  | reserve n => exact reserve_doubles h n answer
  | resize n => exact resize_doubles h n answer
  | pop =>
    change Doubles _ _ _ (vectorPop v).2.room
    unfold vectorPop
    split_ifs with hzero
    · exact keeps_doubles rfl rfl le_rfl
    · exact keeps_doubles rfl rfl (hpred (toNat_ne_zero.mp hzero))
  | eraseIndex index =>
    have hpos : 0 < v.count.toNat := (Nat.zero_le _).trans_lt (position_lt hfits.1 hfits.2)
    have hbooks := eraseIndex_books hpos index
    have hcount : (vectorEraseIndex v index).count = v.count - 1 := congrArg Books.count hbooks
    exact keeps_doubles rfl (congrArg Books.capacity hbooks) (hcount ▸ hpred hpos)
  | eraseElement element =>
    obtain ⟨k, hk, _⟩ := hfits
    have hbooks := eraseElement_books (v := v) element
    have hcount : (vectorEraseElement v element).count = v.count - 1 := congrArg Books.count hbooks
    exact keeps_doubles rfl (congrArg Books.capacity hbooks) (hcount ▸ hpred (by omega))
  | clear => exact keeps_doubles rfl rfl (Nat.zero_le _)
  | clearCompact =>
    rw [movedElements_of_xfree rfl]
    exact .drop
  | back => exact keeps_doubles rfl rfl le_rfl
  | findElement value => exact keeps_doubles rfl rfl le_rfl
  | reverse =>
    obtain ⟨m, hm⟩ := vectorReverse_eq_setBytes v
    have hbooks : (vectorReverse v).books = v.books := by rw [hm, books_setBytes]
    have hcount : (vectorReverse v).count = v.count := congrArg Books.count hbooks
    exact keeps_doubles rfl (congrArg Books.capacity hbooks) (hcount ▸ le_rfl)
  | compact => exact absurd rfl hcompact

lemma GrowthStep.sound (h : v.books.Sound ∧ 0 < v.elementSize.toNat) (hstep : GrowthStep v l v') :
    v'.books.Sound ∧ 0 < v'.elementSize.toNat := by
  obtain ⟨_, hfits, haff, rfl⟩ := hstep
  rw [vectorCall_elementSize]
  exact ⟨call_sound h.1 hfits haff l.2, h.2⟩

end CsVector

/-- Over every run of calls other than `vector_compact`, with any answers of the allocator, an
insertion pays for moving two elements, `vector_reserve` for as many as it makes room for, and
`vector_resize` for twice as many as it leaves. -/
theorem vector_growth_amortized {elementSize : UInt32} (hpos : 0 < elementSize)
    {ls : List (VectorCall × AllocAnswer)} {v : CsVector} {moved : Nat}
    (hrun : Run (Charged CsVector.GrowthStep CsVector.movedElements) (vectorInit elementSize, 0) ls (v, moved)) :
    moved ≤ (ls.map fun l => l.1.price).sum := by
  have hinit : (vectorInit elementSize).books.Sound ∧ 0 < (vectorInit elementSize).elementSize.toNat := by
    refine ⟨⟨⟨le_rfl, ?_⟩, ?_, ⟨fun _ => rfl, fun _ => rfl⟩⟩, UInt32.lt_iff_toNat_lt.mp hpos⟩ <;> rintro _ ⟨⟩
  have hpay := (hrun.amortized 1 (fun v => v.room.saved) (fun v => v.books.Sound ∧ 0 < v.elementSize.toNat)
    (fun v l v' hv hstep => ⟨hstep.sound hv, (hstep.doubles (CsVector.sound_of_books hv.1 hv.2)).pays⟩)
    hinit).2
  change 1 * moved + _ ≤ 1 * 0 + 0 + _ at hpay
  omega

def growthExec (v : CsVector) (l : VectorCall × AllocAnswer) : Option CsVector :=
  if l.1 ≠ .compact ∧ l.1.Fits v ∧ l.1.Affordable v then some (vectorCall v l.2 l.1).2 else none

lemma growthExec_step (v : CsVector) (l : VectorCall × AllocAnswer) (v' : CsVector)
    (h : growthExec v l = some v') : v.GrowthStep l v' := by
  obtain ⟨⟨hcompact, hfits, haff⟩, h⟩ := Option.ite_none_right_eq_some.mp h
  exact ⟨hcompact, hfits, haff, (Option.some.inj h).symm⟩

/-- The buffer doubles once. A reservation is refused first, and then granted. -/
def growingCalls : List (VectorCall × AllocAnswer) :=
  List.replicate 33 (.push [1], some zeroGrant) ++
    [(.insert 0 [2], none), (.reserve 100, none), (.reserve 100, some zeroGrant), (.pop, none)]

theorem vector_growth_amortized_once : ∃ v, ∃ moved : Nat,
    Run (Charged CsVector.GrowthStep CsVector.movedElements) (vectorInit 1, 0) growingCalls (v, moved) ∧
    moved = 66 ∧ moved ≤ (growingCalls.map fun l => l.1.price).sum := by
  have hmoved : (growingCalls.foldlM (chargedExec growthExec CsVector.movedElements) (vectorInit 1, 0)).map
      Prod.snd = some 66 := by decide +kernel
  obtain ⟨⟨v, moved⟩, hrun, hval⟩ :=
    Run.exists_of_foldlM (chargedExec_step growthExec_step) hmoved
  exact ⟨v, moved, hrun, hval, vector_growth_amortized (by decide) hrun⟩

namespace CsVector

/-- The number of elements that `REALLOC` moves in `vector_push_vector`. -/
def movedByPushVector (store : VectorStore) (l : (Nat × Nat) × AllocAnswer) : Nat :=
  match pushVectorRequest (store l.1.1) (store l.1.2), l.2 with
  | .realloc _ _, some _ => (store l.1.1).count.toNat
  | _, _ => 0

/-- `vector_push_vector` with memory, where no count wraps. -/
def PushVectorStep (store : VectorStore) (l : (Nat × Nat) × AllocAnswer) (store' : VectorStore) : Prop :=
  l.2.isSome ∧ (StoreCall.pushVector l.1.1 l.1.2).NoWrap store ∧
    store' = (vectorPushVector store l.1.1 l.1.2 l.2).2

/-- Vector `i` after it has been given the elements of vector `j`, `m` of them, `k` times. -/
structure Appended (i j m k : Nat) (store : VectorStore) : Prop where
  count : (store i).count.toNat = m * k
  capacity : (store i).capacity = (store i).count
  unallocated : (store i).data = none ↔ k = 0
  source : (store j).count.toNat = m
  sameSize : (store i).elementSize = (store j).elementSize

variable {i j m k : Nat} {store store' : VectorStore} {answer : AllocAnswer}

lemma Appended.step (h : Appended i j m k store) (hij : i ≠ j) (hm : 0 < m)
    (hstep : PushVectorStep store ((i, j), answer) store') :
    Appended i j m (k + 1) store' ∧ movedByPushVector store ((i, j), answer) = m * k := by
  obtain ⟨hsome, hwrap, rfl⟩ := hstep
  obtain ⟨g, rfl⟩ := Option.isSome_iff_exists.mp hsome
  have hes := h.sameSize
  have hcount := h.count
  have hsource := h.source
  have hsum : ((store i).count + (store j).count).toNat = m * (k + 1) := by
    rw [UInt32.toNat_add, Nat.mod_eq_of_lt (hwrap hes), hcount, hsource]
    rfl
  have hlt : (store i).capacity < (store i).count + (store j).count := by
    rw [UInt32.lt_iff_toNat_lt, hsum, h.capacity, hcount, Nat.mul_add]
    omega
  have hmoved : movedByPushVector store ((i, j), some g) = m * k := by
    unfold movedByPushVector pushVectorRequest
    dsimp only
    rw [if_neg (not_not.mpr hes), if_pos hlt]
    unfold vectorReallocRequest
    cases hd : (store i).data with
    | none =>
      rw [h.unallocated.mp hd]
      rfl
    | some d => exact hcount
  refine ⟨?_, hmoved⟩
  rcases pushVector_books store i j (some g) hes with hval | ⟨v, hval, hbooks⟩
  · have hreq : (StoreCall.pushVector i j).newCapacity store = some _ :=
      (if_neg (not_not.mpr hes)).trans (if_pos hlt)
    have hstatus : (vectorPushVector store i j (some g)).1 ≠ 0 := by
      rw [hval]
      exact Int.neg_ne_zero.mpr one_ne_zero
    have hfails := pushVector_fails hstatus
    rcases hfails with ⟨hnone, _⟩ | ⟨hnone, _⟩
    · rw [hreq] at hnone
      cases hnone
    · cases hnone
  rw [hval]
  unfold Books.reserved at hbooks
  rw [if_pos (show (store i).books.capacity < _ from hlt)] at hbooks
  have hcount' : v.count = (store i).count + (store j).count := congrArg Books.count hbooks
  have hcap' : v.capacity = (store i).count + (store j).count := congrArg Books.capacity hbooks
  have hes' : v.elementSize = (store i).elementSize := congrArg Books.elementSize hbooks
  have hsize' : v.data.map Block.size = some _ := congrArg Books.size hbooks
  have hupdate : Function.update store i v i = v := Function.update_self _ _ _
  have hkeep : Function.update store i v j = store j := Function.update_of_ne hij.symm _ _
  refine ⟨?_, ?_, ?_, ?_, ?_⟩ <;> dsimp only
  · rw [hupdate, hcount', hsum]
  · rw [hupdate, hcap', hcount']
  · rw [hupdate]
    refine iff_of_false (fun hnone => ?_) (Nat.succ_ne_zero k)
    rw [hnone] at hsize'
    cases hsize'
  · rw [hkeep, hsource]
  · rw [hupdate, hkeep, hes', hes]

end CsVector

/-- Appending the same vector again and again moves all elements that are there with every call,
wherever the buffer goes: the cost is quadratic. -/
theorem push_vector_quadratic {i j m : Nat} {ls : List ((Nat × Nat) × AllocAnswer)}
    {store store' : VectorStore} {moved : Nat} (hij : i ≠ j)
    (hinit : store i = vectorInit (store j).elementSize) (hsource : (store j).count.toNat = m)
    (hm : 0 < m) (hcalls : ∀ l ∈ ls, l.1 = (i, j))
    (hrun : Run (Charged CsVector.PushVectorStep CsVector.movedByPushVector) (store, 0) ls
      (store', moved)) :
    (store' i).count.toNat = m * ls.length ∧ 2 * moved = m * (ls.length * (ls.length - 1)) := by
  have hstart : CsVector.Appended i j m 0 store := by
    refine ⟨?_, ?_, ?_, hsource, ?_⟩ <;> rw [hinit]
    · rfl
    · rfl
    · exact iff_of_true rfl rfl
    · rfl
  have hinv := hrun.indexed (fun k c => CsVector.Appended i j m k c.1 ∧ 2 * c.2 = m * (k * (k - 1)))
    (fun k c l c' hl hc hstep => ?_) ⟨hstart, by simp⟩
  · rw [Nat.zero_add] at hinv
    exact ⟨hinv.1.count, hinv.2⟩
  · obtain ⟨pair, answer⟩ := l
    obtain rfl : pair = (i, j) := hcalls _ hl
    obtain ⟨happended, hmoved⟩ := hc.1.step hij hm hstep.1
    refine ⟨happended, ?_⟩
    rw [hstep.2, hmoved, Nat.mul_add, hc.2, Nat.add_sub_cancel]
    cases k with
    | zero => simp
    | succ k =>
      rw [Nat.add_sub_cancel]
      ring

def pushVectorExec (store : VectorStore) (l : (Nat × Nat) × AllocAnswer) : Option VectorStore :=
  if l.2.isSome ∧ (StoreCall.pushVector l.1.1 l.1.2).NoWrap store then
    some (vectorPushVector store l.1.1 l.1.2 l.2).2
  else none

lemma pushVectorExec_step (store : VectorStore) (l : (Nat × Nat) × AllocAnswer) (store' : VectorStore)
    (h : pushVectorExec store l = some store') : CsVector.PushVectorStep store l store' := by
  obtain ⟨⟨hsome, hwrap⟩, h⟩ := Option.ite_none_right_eq_some.mp h
  exact ⟨hsome, hwrap, (Option.some.inj h).symm⟩

def twoVectors : VectorStore := fun i => if i = 0 then vectorInit 1
  else (vectorPush (vectorPush (vectorInit 1) [1] (some zeroGrant)).2 [2] none).2

/-- Five calls, each with another buffer. -/
def movingCalls : List ((Nat × Nat) × AllocAnswer) :=
  [((0, 1), some ⟨16, fun _ => 0⟩), ((0, 1), some ⟨4096, fun _ => 1⟩), ((0, 1), some ⟨64, fun _ => 2⟩),
    ((0, 1), some ⟨8192, fun _ => 3⟩), ((0, 1), some ⟨16, fun _ => 4⟩)]

theorem push_vector_quadratic_five : ∃ store, ∃ moved : Nat,
    Run (Charged CsVector.PushVectorStep CsVector.movedByPushVector) (twoVectors, 0) movingCalls (store, moved) ∧
    (store 0).data.map Block.addr = some 16 ∧ moved = 20 ∧ (store 0).count.toNat = 2 * 5 ∧
    2 * moved = 2 * (5 * (5 - 1)) := by
  have hmoved : (movingCalls.foldlM (chargedExec pushVectorExec CsVector.movedByPushVector) (twoVectors, 0)).map
      (fun r => ((r.1 0).data.map Block.addr, r.2)) = some (some 16, 20) := by
    decide +kernel
  obtain ⟨⟨store, moved⟩, hrun, hval⟩ :=
    Run.exists_of_foldlM (chargedExec_step pushVectorExec_step) hmoved
  obtain ⟨haddr, hval⟩ := Prod.mk.inj hval
  have hcalls : ∀ l ∈ movingCalls, l.1 = (0, 1) := by simp [movingCalls]
  obtain ⟨hcount, hquadratic⟩ := push_vector_quadratic (by decide) rfl rfl (by decide) hcalls hrun
  exact ⟨store, moved, hrun, haddr, hval, hcount, hquadratic⟩

end CStructures
