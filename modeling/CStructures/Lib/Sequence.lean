import Mathlib.Data.List.InsertIdx
import Mathlib.Tactic.Common

/-!
# Indexed sequences

An array in memory is a function from indices to entries, of which the first `n` are in
use. `insertAt` and `eraseAt` are what shifting the tail does to such a function, and
`tabulate` turns its first `n` entries into a list.
-/

namespace CStructures.Lib

variable {α : Type*}

/-- Entries from `p` on move up by one, and `x` takes the place. -/
def insertAt (f : Nat → α) (p : Nat) (x : α) (i : Nat) : α :=
  if i < p then f i else if i = p then x else f (i - 1)

/-- Entries after `p` move down by one. -/
def eraseAt (f : Nat → α) (p : Nat) (i : Nat) : α :=
  if i < p then f i else f (i + 1)

variable {f g : Nat → α} {p i n : Nat} {x : α}

lemma insertAt_of_lt (h : i < p) : insertAt f p x i = f i := if_pos h

@[simp] lemma insertAt_self : insertAt f p x p = x := by
  simp [insertAt]

lemma insertAt_of_gt (h : p < i) : insertAt f p x i = f (i - 1) := by
  rw [insertAt, if_neg (by omega), if_neg (by omega)]

lemma eraseAt_of_lt (h : i < p) : eraseAt f p i = f i := if_pos h

lemma eraseAt_of_ge (h : p ≤ i) : eraseAt f p i = f (i + 1) := if_neg (by omega)

/-- A move up by one of the entries from `p` on is an insertion, but for the place itself. -/
lemma insertAt_of_moved {m : Nat} (hi : i < p + 1 + m) (hne : i ≠ p) (x : α) :
    (if p + 1 ≤ i ∧ i < p + 1 + m then f (p + (i - (p + 1))) else f i) = insertAt f p x i := by
  rcases Nat.lt_or_gt_of_ne hne with hlt | hgt
  · rw [if_neg (by omega), insertAt_of_lt hlt]
  · have hfrom : p + (i - (p + 1)) = i - 1 := by omega
    rw [if_pos ⟨hgt, hi⟩, hfrom, insertAt_of_gt hgt]

/-- A move down by one of the entries behind `p` is an erasure. -/
lemma eraseAt_of_moved {m : Nat} (hi : i < p + m) :
    (if p ≤ i ∧ i < p + m then f (p + 1 + (i - p)) else f i) = eraseAt f p i := by
  by_cases hle : p ≤ i
  · have hfrom : p + 1 + (i - p) = i + 1 := by omega
    rw [if_pos ⟨hle, hi⟩, hfrom, eraseAt_of_ge hle]
  · rw [if_neg fun h => hle h.1, eraseAt_of_lt (Nat.not_le.mp hle)]

/-- The first `n` entries. -/
def tabulate (f : Nat → α) (n : Nat) : List α := (List.range n).map f

@[simp] lemma length_tabulate : (tabulate f n).length = n := by
  simp [tabulate]

@[simp] lemma getElem_tabulate (h : i < (tabulate f n).length) : (tabulate f n)[i] = f i := by
  simp [tabulate]

@[simp] lemma tabulate_zero : tabulate f 0 = [] := rfl

lemma tabulate_congr (h : ∀ i < n, f i = g i) : tabulate f n = tabulate g n := by
  apply List.ext_getElem
  · simp
  · intro i hi _
    rw [getElem_tabulate, getElem_tabulate]
    exact h i (by simpa using hi)

lemma tabulate_insertAt (hp : p ≤ n) :
    tabulate (insertAt f p x) (n + 1) = (tabulate f n).insertIdx p x := by
  have hlen : p ≤ (tabulate f n).length := by simpa using hp
  apply List.ext_getElem
  · rw [List.length_insertIdx_of_le_length hlen]
    simp
  · intro i hi hi'
    rw [getElem_tabulate]
    rcases Nat.lt_trichotomy i p with h | rfl | h
    · rw [insertAt_of_lt h, List.getElem_insertIdx_of_lt h, getElem_tabulate]
    · rw [insertAt_self, List.getElem_insertIdx_self]
    · rw [insertAt_of_gt h, List.getElem_insertIdx_of_gt h, getElem_tabulate]

lemma tabulate_eraseAt (hp : p < n + 1) :
    tabulate (eraseAt f p) n = (tabulate f (n + 1)).eraseIdx p := by
  apply List.ext_getElem
  · rw [List.length_eraseIdx_of_lt (by simpa using hp)]
    simp
  · intro i hi hi'
    rw [getElem_tabulate, List.getElem_eraseIdx]
    split_ifs with h
    · rw [eraseAt_of_lt h, getElem_tabulate]
    · rw [eraseAt_of_ge (by omega), getElem_tabulate]

lemma tabulate_succ : tabulate f (n + 1) = f 0 :: tabulate (fun i => f (i + 1)) n := by
  simp only [tabulate, List.range_succ_eq_map, List.map_cons, List.map_map]
  rfl

lemma tabulate_append {h : Nat → α} {m : Nat} (hf : ∀ i < n, h i = f i) (hg : ∀ i < m, h (n + i) = g i) :
    tabulate h (n + m) = tabulate f n ++ tabulate g m := by
  apply List.ext_getElem
  · simp
  · intro i hi hi'
    rw [getElem_tabulate, List.getElem_append]
    split_ifs with hlt
    · rw [getElem_tabulate]
      exact hf i (by simpa using hlt)
    · simp only [length_tabulate, Nat.not_lt] at hlt hi hi' ⊢
      rw [getElem_tabulate, ← hg (i - n) (by omega)]
      congr 1
      omega

lemma tabulate_reverse (h : ∀ i < n, g i = f (n - 1 - i)) : tabulate g n = (tabulate f n).reverse := by
  apply List.ext_getElem
  · simp
  · intro i hi hi'
    rw [getElem_tabulate, List.getElem_reverse, getElem_tabulate, length_tabulate]
    exact h i (by simpa using hi)

lemma insertIdx_eq_take_append_drop {l : List α} (h : p ≤ l.length) :
    l.insertIdx p x = l.take p ++ [x] ++ l.drop p := by
  induction l generalizing p with
  | nil =>
    obtain rfl : p = 0 := Nat.le_zero.mp h
    rfl
  | cons y l ih =>
    cases p with
    | zero => rfl
    | succ p =>
      rw [List.insertIdx_succ_cons, ih (by simpa using h)]
      rfl

end CStructures.Lib
