import Mathlib.Data.List.Basic
import Mathlib.Data.List.Range
import Mathlib.Tactic.Common

/-!
# Sweeps over a list

A loop that goes over some positions of a list, and whose body sees the element at each and
replaces it. The body keeps a state of its own.
-/

namespace CStructures.Lib

variable {α E : Type*}

/-- Run `body` at the positions in order. -/
def sweep (body : α → E → α × E) : List Nat → α × List E → α × List E
  | [], c => c
  | i :: is, (a, l) =>
    match l[i]? with
    | none => sweep body is (a, l)
    | some x => sweep body is ((body a x).1, l.set i (body a x).2)

variable {body : α → E → α × E} {i : Nat} {is : List Nat} {a : α} {l : List E} {x : E}

lemma sweep_cons (h : l[i]? = some x) :
    sweep body (i :: is) (a, l) = sweep body is ((body a x).1, l.set i (body a x).2) := by
  rw [sweep, h]

lemma sweep_cons_none (h : l[i]? = none) : sweep body (i :: is) (a, l) = sweep body is (a, l) := by
  rw [sweep, h]

/-- Other positions keep their elements. -/
lemma getElem?_sweep_of_notMem (h : i ∉ is) : (sweep body is (a, l)).2[i]? = l[i]? := by
  induction is generalizing a l with
  | nil => rfl
  | cons j is ih =>
    obtain ⟨hne, hrest⟩ := not_or.mp (mt List.mem_cons.mpr h)
    cases hj : l[j]? with
    | none => rw [sweep_cons_none hj, ih hrest]
    | some x => rw [sweep_cons hj, ih hrest, List.getElem?_set_ne (Ne.symm hne)]

/-- The body sees each element as it was at the start. -/
theorem fst_sweep (hnodup : is.Nodup) : (sweep body is (a, l)).1 =
    (is.filterMap fun i => l[i]?).foldl (fun a x => (body a x).1) a := by
  induction is generalizing a l with
  | nil => rfl
  | cons i is ih =>
    obtain ⟨hfresh, hnodup⟩ := List.nodup_cons.mp hnodup
    cases h : l[i]? with
    | none => rw [sweep_cons_none h, ih hnodup, List.filterMap_cons, h]
    | some x =>
      have hsame : ∀ j ∈ is, (l.set i (body a x).2)[j]? = l[j]? := fun j hj =>
        List.getElem?_set_ne fun heq : i = j => hfresh (heq ▸ hj)
      rw [sweep_cons h, ih hnodup, List.filterMap_congr hsame, List.filterMap_cons, h]
      rfl

/-- A body without a state changes the elements at the positions. -/
theorem getElem?_sweep_map {f : E → E} (hbody : ∀ a x, (body a x).2 = f x) (hnodup : is.Nodup) (hi : i ∈ is) :
    (sweep body is (a, l)).2[i]? = l[i]?.map f := by
  induction is generalizing a l with
  | nil => cases hi
  | cons j is ih =>
    obtain ⟨hfresh, hnodup⟩ := List.nodup_cons.mp hnodup
    rcases List.mem_cons.mp hi with rfl | hi
    · cases h : l[i]? with
      | none => rw [sweep_cons_none h, getElem?_sweep_of_notMem hfresh, h, Option.map_none]
      | some x =>
        have hlt : i < l.length := (List.getElem?_eq_some_iff.mp h).1
        rw [sweep_cons h, getElem?_sweep_of_notMem hfresh, List.getElem?_set_self hlt, hbody, Option.map_some]
    · have hne : j ≠ i := fun heq => hfresh (heq ▸ hi)
      cases h : l[j]? with
      | none => rw [sweep_cons_none h, ih hnodup hi]
      | some x => rw [sweep_cons h, ih hnodup hi, List.getElem?_set_ne hne]

end CStructures.Lib
