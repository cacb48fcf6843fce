import CStructures.Proofs.SharedHeapHashmap

/-!
# Clients of a shared heap

Every container of a client acts like its own sequence, sorted map or finite map, whatever the
client does with its other containers in between, and the live blocks are the headers and
buffers of the containers that the client has not destroyed.
-/

namespace CStructures
open Lib

def Container.footprint : Container → Footprint
  | .vector v => ownedBlock v.data
  | .btree b => ownedBlock b.data
  | .hashmap hm => hm.footprint

/-- The size of the header. -/
def Container.headerSize : Container → UInt64
  | .hashmap _ => 32
  | _ => 24

def headerFootprint : Option UInt64 → UInt64 → Footprint
  | some header, size => {⟨header, size⟩}
  | none, _ => 0

def Handle.footprint (handle : Handle) : Footprint :=
  headerFootprint handle.header handle.container.headerSize + handle.container.footprint

/-- What is left of a container that has been destroyed is nothing. -/
def handleFootprint : Option Handle → Footprint
  | some handle => handle.footprint
  | none => 0

/-- The blocks that the client has to free, and those that it cannot free. -/
def Client.footprint (client : Client) : Footprint :=
  (client.handles.map handleFootprint).sum + (client.lost.map fun p => ({⟨p, 24⟩} : Footprint)).sum

inductive AbstractContainer
  | vector (elementSize : UInt32) (l : Elements)
  | btree (m : KeyMap)
  | hashmap (m : ByteMap)

def ContainerKind.empty : ContainerKind → AbstractContainer
  | .vector elementSize => .vector elementSize []
  | .btree _ => .btree ∅
  | .hashmap _ _ _ _ => .hashmap ∅

/-- The containers that the client has created; a destroyed one is `none`. -/
abbrev AbstractClient := List (Option AbstractContainer)

/-- What each call answers, and the one container that it changes. -/
inductive AbstractStep : AbstractClient → ClientCall × ClientAnswer → AbstractClient → Prop
  | init {a kind} : AbstractStep a (.init kind, .done) (a ++ [some kind.empty])
  | create {a kind} : AbstractStep a (.create kind, .done) (a ++ [some kind.empty])
  | stringCreate {a} : AbstractStep a (.stringCreate, .null) a
  | vector {a i size l l' call answer} (h : a[i]? = some (some (.vector size l)))
      (hstep : SequenceStep size.toNat l (call, answer) l') :
      AbstractStep a (.vector i call, .vector answer) (a.set i (some (.vector size l')))
  | pushVector {a i j size l l'} (h : a[i]? = some (some (.vector size l)))
      (hsource : a[j]? = some (some (.vector size l'))) :
      AbstractStep a (.pushVector i j, .vector (.status 0)) (a.set i (some (.vector size (l ++ l'))))
  | pushOther {a i j size size' l l'} (h : a[i]? = some (some (.vector size l)))
      (hsource : a[j]? = some (some (.vector size' l'))) (hne : size ≠ size') :
      AbstractStep a (.pushVector i j, .vector (.status (-2))) (a.set i (some (.vector size l)))
  | btree {a i m m' call answer} (h : a[i]? = some (some (.btree m)))
      (hstep : SortedMapStep m (call, answer) m') :
      AbstractStep a (.btree i call, .btree answer) (a.set i (some (.btree m')))
  | hashmap {a i m m' call answer} (h : a[i]? = some (some (.hashmap m)))
      (hstep : MapStep m (call, answer) m') :
      AbstractStep a (.hashmap i call, .hashmap answer) (a.set i (some (.hashmap m')))
  | destroy {a i c} (h : a[i]? = some (some c)) : AbstractStep a (.destroy i, .done) (a.set i none)

def Container.Represents : Container → AbstractContainer → Prop
  | .vector v, .vector size l =>
    v.elementSize = size ∧ 0 < v.elementSize.toNat ∧ v.books.Sound ∧ v.toList = l
  | .btree b, .btree m => b.Represents m
  | .hashmap hm, .hashmap m => hm.Valid ∧ Lib.Represents hm.table hm.values m
  | _, _ => False

def Handle.Represents (handle : Handle) (c : AbstractContainer) : Prop := handle.container.Represents c

def Client.Represents (client : Client) (a : AbstractClient) : Prop :=
  ∀ i : Nat, Option.Rel (Option.Rel Handle.Represents) client.handles[i]? a[i]?

/-- Elements have a size, and the table of a hashmap a number of slots that can be tripled. -/
def ContainerKind.Valid : ContainerKind → Prop
  | .vector elementSize => 0 < elementSize.toNat
  | .btree _ => True
  | .hashmap _ _ tableCount _ => 0 < tableCount.toNat ∧ tableCount.toNat ≤ 2 ^ 30

/-- The assertions of the functions and arguments of the right sizes. A vector does not grow to
where its counts and sizes wrap. -/
def ClientCall.Fits (client : Client) : ClientCall → Prop
  | .init kind | .create kind => kind.Valid
  | .vector i call => call.Fits (client.vectors i) ∧ call.Affordable (client.vectors i)
  | .pushVector i j =>
    (StoreCall.pushVector i j).Affordable client.vectors ∧ (StoreCall.pushVector i j).NoWrap client.vectors
  | .btree i call =>
    match client.handles[i]? with
    | some (some ⟨_, .btree b⟩) => call.Fits b
    | _ => False
  | .hashmap i call =>
    match client.handles[i]? with
    | some (some ⟨_, .hashmap hm⟩) => call.Fits hm ∧ call.HasValue
    | _ => False
  | _ => True

instance ContainerKind.decidableValid (kind : ContainerKind) : Decidable kind.Valid := by
  cases kind <;> unfold ContainerKind.Valid <;> infer_instance

instance ClientCall.decidableFits (client : Client) (call : ClientCall) : Decidable (call.Fits client) := by
  cases call with
  | btree i call =>
    dsimp only [ClientCall.Fits]
    rcases client.handles[i]? with _ | _ | ⟨_, _ | _ | _⟩ <;> dsimp only <;> infer_instance
  | hashmap i call =>
    dsimp only [ClientCall.Fits]
    rcases client.handles[i]? with _ | _ | ⟨_, _ | _ | _⟩ <;> dsimp only <;> infer_instance
  | _ =>
    unfold ClientCall.Fits
    infer_instance

/-- The strings that the call has created. -/
def ClientCall.strings : ClientCall → Nat
  | .stringCreate => 1
  | _ => 0

/-- The values of a btree and of a hashmap are addressable. -/
def Container.InBounds : Container → Prop
  | .vector _ => True
  | .btree b => b.InBounds
  | .hashmap hm => hm.ValuesFit

def Client.InBounds (client : Client) : Prop :=
  ∀ x ∈ client.handles, ∀ handle ∈ x, handle.container.InBounds

instance Btree.decidableInBounds (b : Btree) : Decidable b.InBounds :=
  decidable_of_iff (b.capacity.toNat < 2 ^ 31 ∧ b.capacity.toNat * b.valueSize.toNat < 2 ^ 32)
    ⟨fun h => ⟨h.1, h.2⟩, fun h => ⟨h.1, h.2⟩⟩

instance Container.decidableInBounds : (c : Container) → Decidable c.InBounds
  | .vector _ => instDecidableTrue
  | .btree b => Btree.decidableInBounds b
  | .hashmap _ => inferInstanceAs (Decidable (_ < _))

instance Client.decidableInBounds (client : Client) : Decidable client.InBounds :=
  decidable_of_iff (∀ x ∈ client.handles, (x.map Handle.container).all fun c => decide c.InBounds) <| by
    simp [Client.InBounds, Option.all_eq_true]

/-- One call that returns. The functions of the heap may depend on the fuel. -/
def ClientStep {σ : Type} (H : Nat → HeapApi σ) (c : Client × σ) (l : ClientCall × ClientAnswer)
    (c' : Client × σ) : Prop :=
  l.1.Fits c.1 ∧ (∃ fuel, clientCall (H fuel) fuel c.1 l.1 c.2 = some ((l.2, c'.1), c'.2)) ∧ c'.1.InBounds

section Handles

variable {client client' : Client} {a : AbstractClient} {i : Nat} {handle : Handle}
  {x : Option Handle} {c : AbstractContainer}

lemma Client.footprint_put (h : client.handles[i]? = some x) :
    ∃ R, client.footprint = handleFootprint x + R ∧
      ∀ y, (client.put i y).footprint = handleFootprint y + R := by
  obtain ⟨R, hx, hy⟩ := sum_map_set handleFootprint h
  refine ⟨R + (client.lost.map fun p => ({⟨p, 24⟩} : Footprint)).sum, ?_, fun y => ?_⟩
  · rw [footprint, hx, add_assoc]
  · rw [← add_assoc, ← hy]
    rfl

lemma Client.footprint_add (client : Client) (handle : Handle) :
    (client.add handle).footprint = handle.footprint + client.footprint := by
  rw [footprint, add, List.map_append, List.sum_append, footprint]
  change _ + (handle.footprint + 0) + _ = _
  rw [add_zero, add_comm _ handle.footprint, add_assoc]

lemma Client.Represents.get (h : client.Represents a) (hi : client.handles[i]? = some (some handle)) :
    ∃ c, a[i]? = some (some c) ∧ handle.Represents c := by
  have hrel := h i
  rw [hi] at hrel
  cases hai : a[i]? with
  | none =>
    rw [hai] at hrel
    cases hrel
  | some y =>
    rw [hai] at hrel
    cases hrel with
    | some hrel =>
      cases hrel with
      | some hrel => exact ⟨_, rfl, hrel⟩

lemma Client.Represents.put (h : client.Represents a) {y : Option AbstractContainer}
    (hxy : Option.Rel Handle.Represents x y) : (client.put i x).Represents (a.set i y) := by
  intro j
  change Option.Rel _ (client.handles.set i x)[j]? (a.set i y)[j]?
  rw [List.getElem?_set, List.getElem?_set]
  by_cases hij : i = j
  · subst hij
    rw [if_pos rfl, if_pos rfl]
    have hrel := h i
    by_cases hlt : i < client.handles.length
    · rw [List.getElem?_eq_getElem hlt] at hrel
      have hlt' : i < a.length := by
        by_contra hge
        rw [List.getElem?_eq_none (Nat.le_of_not_lt hge)] at hrel
        cases hrel
      rw [if_pos hlt, if_pos hlt']
      exact .some hxy
    · rw [List.getElem?_eq_none (Nat.le_of_not_lt hlt)] at hrel
      have hlt' : ¬i < a.length := by
        intro hlt'
        rw [List.getElem?_eq_getElem hlt'] at hrel
        cases hrel
      rw [if_neg hlt, if_neg hlt']
      exact .none
  · rw [if_neg hij, if_neg hij]
    exact h j

lemma Client.Represents.length_eq (h : client.Represents a) : client.handles.length = a.length := by
  by_contra hne
  rcases Nat.lt_or_gt_of_ne hne with hlt | hgt
  · have hrel := h client.handles.length
    rw [List.getElem?_eq_none le_rfl, List.getElem?_eq_getElem hlt] at hrel
    cases hrel
  · have hrel := h a.length
    rw [List.getElem?_eq_none le_rfl, List.getElem?_eq_getElem hgt] at hrel
    cases hrel

lemma Client.Represents.add (h : client.Represents a) (hhandle : handle.Represents c) :
    (client.add handle).Represents (a ++ [some c]) := by
  intro j
  change Option.Rel _ (client.handles ++ [some handle])[j]? (a ++ [some c])[j]?
  rw [List.getElem?_append, List.getElem?_append, h.length_eq]
  split_ifs with hlt
  · exact h j
  · cases hj : j - a.length with
    | zero => exact .some (.some hhandle)
    | succ k => exact .none

lemma Client.vectors_eq {header : Option UInt64} {v : CsVector}
    (h : client.handles[i]? = some (some ⟨header, .vector v⟩)) : client.vectors i = v := by
  rw [vectors, h]

lemma Client.InBounds.put {handle' : Handle} (h : (client.put i (some handle')).InBounds)
    (hi : client.handles[i]? = some x) : handle'.container.InBounds := by
  obtain ⟨hlt, _⟩ := List.getElem?_eq_some_iff.mp hi
  exact h _ (List.mem_set hlt _) handle' rfl

end Handles

section Programs

variable {σ α β : Type} {H : HeapApi σ} {inv : σ → BlockMap → Prop} {client : Client}
  {a : AbstractClient} {i j : Nat} {header : Option UInt64} {fuel : Nat}

/-- A program that creates a container. -/
lemma Owns.addCreated {prog : StateT σ Option (Option Handle)} {c : AbstractContainer}
    (hclient : client.Represents a) (h : Owns inv 0 prog fun r F => ∃ handle, r = some handle ∧ F = handle.footprint ∧ handle.Represents c) :
    Owns inv client.footprint (prog >>= fun handle => pure (addCreated client handle)) fun r F =>
      F = r.2.footprint ∧ r.2.lost.length = client.lost.length ∧ r.1 = .done ∧
        r.2.Represents (a ++ [some c]) := by
  rw [← zero_add client.footprint]
  refine h.frame.bind ?_
  rintro _ _ ⟨_, ⟨handle, rfl, rfl, hrep⟩, rfl⟩
  exact Owns.pure ⟨(client.footprint_add handle).symm, rfl, rfl, hclient.add hrep⟩

/-- A program on one of the containers. -/
lemma Owns.putHandle {c : Container} {prog : StateT σ Option (α × β)} {P : α × β → Prop}
    (wrap : β → Container) (answer : α → ClientAnswer)
    (hi : client.handles[i]? = some (some ⟨header, c⟩))
    (h : Owns inv c.footprint prog fun r F => F = (wrap r.2).footprint ∧ P r)
    (hsize : ∀ y, (wrap y).headerSize = c.headerSize) :
    Owns inv client.footprint
      (prog >>= fun r => pure (answer r.1, client.put i (some ⟨header, wrap r.2⟩))) fun r F =>
      F = r.2.footprint ∧ ∃ x, P x ∧ r = (answer x.1, client.put i (some ⟨header, wrap x.2⟩)) := by
  obtain ⟨R, hclient, hput⟩ := Client.footprint_put hi
  have hsplit : client.footprint = c.footprint + (headerFootprint header c.headerSize + R) := by
    rw [hclient, handleFootprint, Handle.footprint, add_comm _ c.footprint, add_assoc]
  rw [hsplit]
  refine h.frame.bind ?_
  rintro x _ ⟨_, ⟨rfl, hx⟩, rfl⟩
  refine Owns.pure ⟨?_, x, hx, rfl⟩
  rw [hput, handleFootprint, Handle.footprint, hsize, add_comm _ (wrap x.2).footprint, add_assoc]

lemma xfree_owns (hH : H.Keeps Grant.addr inv) (data : Option Block) :
    Owns inv (ownedBlock data) ((xfree data).perform H) fun _ F => F = 0 :=
  ((xfree_describes fun _ => rfl : (xfree data).Describes data fun _ => none).owns hH xfree_positive).mono
    fun _ _ h => h.1

lemma vectorInit_represents {size : UInt32} (hpos : 0 < size.toNat) :
    (Container.vector (vectorInit size)).Represents (.vector size []) := by
  refine ⟨rfl, hpos, ⟨⟨le_rfl, ?_⟩, ?_, ⟨fun _ => rfl, fun _ => rfl⟩⟩, rfl⟩ <;> rintro _ ⟨⟩

theorem containerInit_owns (hH : H.Keeps Grant.addr inv) {kind : ContainerKind} (hkind : kind.Valid) :
    Owns inv 0 (containerInit H kind) fun r F =>
      ∃ handle, r = some handle ∧ F = handle.footprint ∧ handle.Represents kind.empty := by
  cases kind with
  | vector size => exact Owns.pure ⟨_, rfl, rfl, vectorInit_represents hkind⟩
  | btree size => exact Owns.pure ⟨_, rfl, rfl, Btree.represents_init size⟩
  | hashmap keySize valueSize tableCount hash =>
    refine (Hashmap.init_owns hH hkind.1 hkind.2).bind ?_
    rintro _ _ ⟨hm, rfl, rfl, hv, hrep⟩
    exact Owns.pure ⟨_, rfl, (zero_add _).symm, hv, hrep⟩

theorem containerCreate_owns (hH : H.Keeps Grant.addr inv) {kind : ContainerKind} (hkind : kind.Valid) :
    Owns inv 0 (containerCreate H kind) fun r F =>
      ∃ handle, r = some handle ∧ F = handle.footprint ∧ handle.Represents kind.empty := by
  cases kind with
  | vector size =>
    refine ((hH.owns_malloc (by decide)).bind ?_ : Owns inv 0 (vectorCreate H size) fun r F =>
      ∃ p, r = some (p, vectorInit size) ∧ F = {⟨p, 24⟩}).bind ?_
    · rintro _ _ ⟨g, rfl, rfl⟩
      exact Owns.pure ⟨_, rfl, rfl⟩
    · rintro _ _ ⟨p, rfl, rfl⟩
      exact Owns.pure ⟨_, rfl, (add_zero _).symm, vectorInit_represents hkind⟩
  | btree size =>
    refine ((hH.owns_malloc (by decide)).bind ?_ : Owns inv 0 (btreeCreate H size) fun r F =>
      ∃ p, r = some (p, btreeInit size) ∧ F = {⟨p, 24⟩}).bind ?_
    · rintro _ _ ⟨g, rfl, rfl⟩
      exact Owns.pure ⟨_, rfl, rfl⟩
    · rintro _ _ ⟨p, rfl, rfl⟩
      exact Owns.pure ⟨_, rfl, (add_zero _).symm, Btree.represents_init size⟩
  | hashmap keySize valueSize tableCount hash =>
    refine ((hH.owns_malloc (by decide)).bind ?_ :
      Owns inv 0 (hashmapCreateOnHeap H keySize valueSize tableCount hash) fun r F =>
        ∃ p hm, r = (some p, some hm) ∧ F = hm.footprint + {⟨p, 32⟩} ∧ hm.Valid ∧
          Lib.Represents hm.table hm.values ∅).bind ?_
    · rintro _ _ ⟨g, rfl, rfl⟩
      rw [← zero_add ({⟨g.addr, 32⟩} : Footprint)]
      refine (Hashmap.init_owns hH hkind.1 hkind.2).frame.bind ?_
      rintro _ _ ⟨_, ⟨hm, rfl, rfl, hv, hrep⟩, rfl⟩
      exact Owns.pure ⟨_, hm, rfl, rfl, hv, hrep⟩
    · rintro _ _ ⟨p, hm, rfl, rfl, hv, hrep⟩
      exact Owns.pure ⟨_, rfl, add_comm _ _, hv, hrep⟩

lemma containerDeinit_owns (hH : H.Keeps Grant.addr inv) (c : Container) :
    Owns inv c.footprint (containerDeinit H c) fun _ F => F = 0 := by
  cases c with
  | vector v => exact (xfree_owns hH v.data).bind fun _ _ h => Owns.pure h
  | btree b =>
    refine (Btree.onHeap_owns hH (btreeClear b) .compact).bind ?_
    rintro _ _ ⟨rfl, g, rfl⟩
    exact Owns.pure rfl
  | hashmap hm => exact hH.owns_free

theorem containerDestroy_owns (hH : H.Keeps Grant.addr inv) (handle : Handle) :
    Owns inv handle.footprint (containerDestroy H handle) fun _ F => F = 0 := by
  obtain ⟨header, c⟩ := handle
  rw [Handle.footprint, add_comm]
  refine (containerDeinit_owns hH c).frame.bind ?_
  rintro _ _ ⟨_, rfl, rfl⟩
  rw [zero_add]
  cases header with
  | none => exact Owns.pure rfl
  | some p => exact hH.owns_free

/-- What one call leaves: its blocks belong to the client, and it has acted on the abstract
containers. -/
structure Acts (client : Client) (a : AbstractClient) (call : ClientCall) (r : ClientAnswer × Client)
    (F : Footprint) : Prop where
  owned : F = r.2.footprint
  lost : r.2.lost.length = client.lost.length + call.strings
  abstract : r.2.InBounds → ∃ a', AbstractStep a (call, r.1) a' ∧ r.2.Represents a'

lemma Owns.never {F : Footprint} {Q : α → Footprint → Prop} :
    Owns inv F (fun _ => none : StateT σ Option α) Q := by
  intro s m R r s' _ _ h
  cases h

/-- The vector at a handle, as the abstract client has it. -/
lemma Client.Represents.vector {v : CsVector} (h : client.Represents a)
    (hi : client.handles[i]? = some (some ⟨header, .vector v⟩)) :
    a[i]? = some (some (.vector v.elementSize v.toList)) ∧ 0 < v.elementSize.toNat ∧ v.books.Sound := by
  obtain ⟨c, hc, hrep⟩ := h.get hi
  cases c with
  | vector size l =>
    obtain ⟨rfl, hpos, hbooks, rfl⟩ := hrep
    exact ⟨hc, hpos, hbooks⟩
  | btree m => exact hrep.elim
  | hashmap m => exact hrep.elim

theorem vectorCall_acts (hH : H.Keeps Grant.addr inv) (hrep : client.Represents a) {v : CsVector}
    (hi : client.handles[i]? = some (some ⟨header, .vector v⟩)) {call : VectorCall}
    (hfits : call.Fits v) (haff : call.Affordable v) :
    Owns inv client.footprint (vectorOnHeap H v call >>= fun r =>
      pure (.vector r.1, client.put i (some ⟨header, .vector r.2⟩))) (Acts client a (.vector i call)) := by
  obtain ⟨hai, hpos, hbooks⟩ := hrep.vector hi
  have hv := CsVector.sound_of_books hbooks hpos
  refine (Owns.putHandle .vector .vector hi (hv.vectorOnHeap hH haff) fun _ => rfl).mono ?_
  rintro _ _ ⟨rfl, _, ⟨g, rfl⟩, rfl⟩
  refine ⟨rfl, rfl, fun _ => ?_⟩
  have hes := CsVector.vectorCall_elementSize v (some g) call
  have hbooks' := CsVector.call_sound hbooks hfits haff (some g)
  have hbound := (CsVector.sound_of_books hbooks' (hes ▸ hpos)).fits
  rw [hes] at hbound
  obtain ⟨_, _, hstep⟩ := hv.call hfits (CsVector.noWrap_of_affordable hv haff) g hbound
  exact ⟨_, .vector hai hstep, hrep.put (.some ⟨hes, hes ▸ hpos, hbooks', rfl⟩)⟩

theorem pushVector_acts (hH : H.Keeps Grant.addr inv) (hrep : client.Represents a) {v w : CsVector}
    {header' : Option UInt64} (hi : client.handles[i]? = some (some ⟨header, .vector v⟩))
    (hj : client.handles[j]? = some (some ⟨header', .vector w⟩))
    (haff : (StoreCall.pushVector i j).Affordable client.vectors)
    (hwrap : (StoreCall.pushVector i j).NoWrap client.vectors) :
    Owns inv client.footprint (pushVectorOnHeap H client.vectors i j >>= fun r =>
      pure (.vector (.status r.1), client.put i (some ⟨header, .vector r.2⟩)))
      (Acts client a (.pushVector i j)) := by
  obtain ⟨hai, hpos, hbooks⟩ := hrep.vector hi
  obtain ⟨haj, _, _⟩ := hrep.vector hj
  have hvi := Client.vectors_eq hi
  have hvj := Client.vectors_eq hj
  have hv : (client.vectors i).Sound := hvi ▸ CsVector.sound_of_books hbooks hpos
  have howns := hv.pushVectorOnHeap hH haff
  rw [hvi] at howns
  refine (Owns.putHandle .vector (fun status => .vector (.status status)) hi howns fun _ => rfl).mono ?_
  rintro _ _ ⟨rfl, _, ⟨g, rfl⟩, rfl⟩
  refine ⟨rfl, rfl, fun _ => ?_⟩
  by_cases hes : (client.vectors i).elementSize = (client.vectors j).elementSize
  · obtain ⟨v', hpush, hbooks', hes', hlist⟩ :=
      CsVector.pushVector_sound (hvi ▸ hbooks) (hvi ▸ hpos) hes haff hwrap g
    have hresult : ((vectorPushVector client.vectors i j (some g)).1,
        (vectorPushVector client.vectors i j (some g)).2 i) = (0, v') := by
      rw [hpush]
      exact congrArg (Prod.mk 0) (Function.update_self _ _ _)
    rw [hvi, hvj] at hlist hes
    rw [hvi] at hes'
    rw [← hes] at haj
    rw [hresult]
    exact ⟨_, .pushVector hai haj, hrep.put (.some ⟨hes', hes' ▸ hpos, hbooks', hlist⟩)⟩
  · have hresult : ((vectorPushVector client.vectors i j (some g)).1,
        (vectorPushVector client.vectors i j (some g)).2 i) = (-2, v) := by
      rw [vectorPushVector, if_pos hes]
      exact congrArg (Prod.mk (-2)) hvi
    rw [hvi, hvj] at hes
    rw [hresult]
    exact ⟨_, .pushOther hai haj hes, hrep.put (.some ⟨rfl, hpos, hbooks, rfl⟩)⟩

theorem btreeCall_acts (hH : H.Keeps Grant.addr inv) (hrep : client.Represents a) {b : Btree}
    (hi : client.handles[i]? = some (some ⟨header, .btree b⟩)) {call : BtreeCall} (hfits : call.Fits b) :
    Owns inv client.footprint (btreeOnHeap H b call >>= fun r =>
      pure (.btree r.1, client.put i (some ⟨header, .btree r.2⟩))) (Acts client a (.btree i call)) := by
  refine (Owns.putHandle .btree .btree hi (Btree.onHeap_owns hH b call) fun _ => rfl).mono ?_
  rintro _ _ ⟨rfl, _, ⟨g, rfl⟩, rfl⟩
  refine ⟨rfl, rfl, fun hbounds => ?_⟩
  obtain ⟨c, hai, hb⟩ := hrep.get hi
  cases c with
  | vector size l => exact hb.elim
  | hashmap m => exact hb.elim
  | btree m =>
    obtain ⟨m', hstep, hrep'⟩ := Btree.Represents.call hb hfits g (Client.InBounds.put hbounds hi)
    exact ⟨_, .btree hai hstep, hrep.put (.some hrep')⟩

theorem hashmapCall_acts (hH : H.Keeps Grant.addr inv) (hrep : client.Represents a) {hm : Hashmap}
    (hi : client.handles[i]? = some (some ⟨header, .hashmap hm⟩)) {call : HashmapCall}
    (hfits : call.Fits hm) (hvalue : call.HasValue) :
    Owns inv client.footprint (hashmapOnHeap H fuel hm call >>= fun r =>
      pure (.hashmap r.1, client.put i (some ⟨header, .hashmap r.2⟩))) (Acts client a (.hashmap i call)) := by
  obtain ⟨c, hai, hm'⟩ := hrep.get hi
  cases c with
  | vector size l => exact hm'.elim
  | btree m => exact hm'.elim
  | hashmap m =>
    refine (Owns.putHandle .hashmap .hashmap hi
      (Hashmap.onHeap_owns hH hm'.1 hm'.2 hfits hvalue) fun _ => rfl).mono ?_
    rintro _ _ ⟨rfl, x, hx, rfl⟩
    refine ⟨rfl, rfl, fun hbounds => ?_⟩
    obtain ⟨m', hstep, hrep'⟩ := hx (Client.InBounds.put hbounds hi)
    exact ⟨_, .hashmap hai hstep, hrep.put (.some hrep')⟩

theorem destroy_acts (hH : H.Keeps Grant.addr inv) (hrep : client.Represents a) {handle : Handle}
    (hi : client.handles[i]? = some (some handle)) :
    Owns inv client.footprint (containerDestroy H handle >>= fun _ => pure (.done, client.put i none))
      (Acts client a (.destroy i)) := by
  obtain ⟨R, hclient, hput⟩ := Client.footprint_put hi
  obtain ⟨c, hai, _⟩ := hrep.get hi
  rw [hclient]
  refine (containerDestroy_owns hH handle).frame.bind ?_
  rintro _ _ ⟨_, rfl, rfl⟩
  exact Owns.pure ⟨(hput none).symm, rfl, fun _ => ⟨_, .destroy hai, hrep.put .none⟩⟩

/-- `string_create` leaves a block that nobody can free. -/
theorem stringCreate_acts (hH : H.Keeps Grant.addr inv) (hrep : client.Represents a) :
    Owns inv client.footprint (stringCreate H >>= fun str =>
      pure (.null, { client with lost := str.toList ++ client.lost })) (Acts client a .stringCreate) := by
  have hcreate : Owns inv 0 (stringCreate H) fun r F => ∃ p, r = some p ∧ F = {⟨p, 24⟩} := by
    refine (hH.owns_malloc (by decide)).bind ?_
    rintro _ _ ⟨g, rfl, rfl⟩
    exact Owns.pure ⟨_, rfl, rfl⟩
  rw [← zero_add client.footprint]
  refine hcreate.frame.bind ?_
  rintro _ _ ⟨_, ⟨p, rfl, rfl⟩, rfl⟩
  refine Owns.pure ⟨?_, rfl, fun _ => ⟨a, .stringCreate, hrep⟩⟩
  rw [Client.footprint, Client.footprint, add_left_comm]
  rfl

/-- Every call acts on its own container and keeps the heap of the client in order. -/
theorem clientCall_acts (hH : H.Keeps Grant.addr inv) (hrep : client.Represents a) {call : ClientCall}
    (hfits : call.Fits client) :
    Owns inv client.footprint (clientCall H fuel client call) (Acts client a call) := by
  cases call with
  | init kind =>
    refine (Owns.addCreated hrep (containerInit_owns hH hfits)).mono ?_
    rintro ⟨_, client'⟩ _ ⟨rfl, hlost, rfl, hrep'⟩
    exact ⟨rfl, hlost, fun _ => ⟨_, .init, hrep'⟩⟩
  | create kind =>
    refine (Owns.addCreated hrep (containerCreate_owns hH hfits)).mono ?_
    rintro ⟨_, client'⟩ _ ⟨rfl, hlost, rfl, hrep'⟩
    exact ⟨rfl, hlost, fun _ => ⟨_, .create, hrep'⟩⟩
  | stringCreate => exact stringCreate_acts hH hrep
  | vector i call =>
    rw [clientCall]
    split
    · next header v hi =>
      obtain ⟨hfits, haff⟩ := hfits
      rw [Client.vectors_eq hi] at hfits haff
      exact vectorCall_acts hH hrep hi hfits haff
    · exact Owns.never
  | pushVector i j =>
    rw [clientCall]
    split
    · next header v header' w hi hj => exact pushVector_acts hH hrep hi hj hfits.1 hfits.2
    · exact Owns.never
  | btree i call =>
    rw [clientCall]
    split
    · next header b hi =>
      rw [ClientCall.Fits, hi] at hfits
      exact btreeCall_acts hH hrep hi hfits
    · exact Owns.never
  | hashmap i call =>
    rw [clientCall]
    split
    · next header hm hi =>
      rw [ClientCall.Fits, hi] at hfits
      exact hashmapCall_acts hH hrep hi hfits.1 hfits.2
    · exact Owns.never
  | destroy i =>
    rw [clientCall]
    split
    · next handle hi => exact destroy_acts hH hrep hi
    · exact Owns.never

end Programs

section Runs

variable {σ : Type} {H : Nat → HeapApi σ} {inv : σ → BlockMap → Prop} {c c' : Client × σ}
  {a : AbstractClient} {l : ClientCall × ClientAnswer} {ls : List (ClientCall × ClientAnswer)}

/-- The blocks that are live are those of the client. -/
def Client.OwnsHeap (inv : σ → BlockMap → Prop) (c : Client × σ) : Prop :=
  ∃ m, inv c.2 m ∧ m.entries = c.1.footprint

lemma ClientStep.acts (hH : ∀ fuel, (H fuel).Keeps Grant.addr inv) (hrep : c.1.Represents a)
    (howns : Client.OwnsHeap inv c) (hstep : ClientStep H c l c') :
    ∃ a', AbstractStep a l a' ∧ c'.1.Represents a' ∧ Client.OwnsHeap inv c' ∧
      c'.1.lost.length = c.1.lost.length + l.1.strings := by
  obtain ⟨hfits, ⟨fuel, hcall⟩, hbounds⟩ := hstep
  obtain ⟨m, hinv, hentries⟩ := howns
  obtain ⟨_, m', ⟨rfl, hlost, habstract⟩, hinv', hentries'⟩ :=
    clientCall_acts (hH fuel) hrep hfits c.2 m 0 _ c'.2 hinv (by rw [hentries, add_zero]) hcall
  obtain ⟨a', hstep, hrep'⟩ := habstract hbounds
  exact ⟨a', hstep, hrep', ⟨m', hinv', by rw [hentries', add_zero]⟩, hlost⟩

theorem ClientStep.run (hH : ∀ fuel, (H fuel).Keeps Grant.addr inv) (hrep : c.1.Represents a)
    (howns : Client.OwnsHeap inv c) (hrun : Run (ClientStep H) c ls c') :
    ∃ a', Run AbstractStep a ls a' ∧ c'.1.Represents a' ∧ Client.OwnsHeap inv c' ∧
      c'.1.lost.length = c.1.lost.length + (ls.map fun l => l.1.strings).sum := by
  induction hrun generalizing a with
  | nil c => exact ⟨a, .nil a, hrep, howns, rfl⟩
  | @cons c c₁ c' l ls hstep _ ih =>
    obtain ⟨a₁, hstep', hrep₁, howns₁, hlost⟩ := hstep.acts hH hrep howns
    obtain ⟨a', hrun', hrep', howns', hlost'⟩ := ih hrep₁ howns₁
    refine ⟨a', .cons hstep' hrun', hrep', howns', ?_⟩
    rw [hlost', hlost, List.map_cons, List.sum_cons, Nat.add_assoc]

lemma Client.represents_nil (lost : List UInt64) : (⟨[], lost⟩ : Client).Represents [] := fun _ => .none

lemma Client.ownsHeap_nil {s : σ} (hinit : inv s ∅) : Client.OwnsHeap inv (⟨[], []⟩, s) :=
  ⟨∅, hinit, rfl⟩

end Runs

end CStructures
