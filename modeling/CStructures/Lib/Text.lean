import CStructures.Lib.Bytes
import Mathlib.Data.List.Forall2
import Mathlib.Data.List.TakeWhile
import Mathlib.Data.List.Basic

/-!
# Text

Zero-terminated strings in byte memory, and the pieces of a list between the occurrences of a
separator.
-/

namespace CStructures.Lib

/-- The string `l` stands at `off` with a zero byte behind it. -/
structure CString (m : Bytes) (off : Nat) (l : List Byte) : Prop where
  chars : ∀ i (h : i < l.length), m (off + i) = l[i]
  zero : m (off + l.length) = 0
  nonzero : 0 ∉ l

namespace CString

variable {m m' : Bytes} {off : Nat} {c : Byte} {l p rest : List Byte}

lemma congr (h : CString m off l) (hm : ∀ i ≤ l.length, m' (off + i) = m (off + i)) : CString m' off l where
  chars := by
    intro i hi
    rw [hm i hi.le]
    exact h.chars i hi
  zero := by
    rw [hm _ le_rfl]
    exact h.zero
  nonzero := h.nonzero

lemma append (h : CString m off (p ++ l)) : CString m (off + p.length) l where
  chars := by
    intro i hi
    have hget := h.chars (p.length + i) (by rw [List.length_append]; omega)
    rw [List.getElem_append_right (Nat.le_add_right _ _)] at hget
    rw [Nat.add_assoc, hget]
    congr 1
    omega
  zero := by
    have hzero := h.zero
    rw [List.length_append] at hzero
    rw [Nat.add_assoc]
    exact hzero
  nonzero := fun hmem => h.nonzero (List.mem_append_right p hmem)

lemma head (h : CString m off (c :: l)) : m off = c := h.chars 0 (Nat.succ_pos _)

lemma tail (h : CString m off (c :: l)) : CString m (off + 1) l := append (p := [c]) h

lemma head_ne_zero (h : CString m off (c :: l)) : c ≠ 0 := by
  rintro rfl
  exact h.nonzero List.mem_cons_self

/-- A string is empty when its first byte is zero. -/
lemma first_eq_zero (h : CString m off l) : m off = 0 ↔ l = [] := by
  cases l with
  | nil => exact iff_of_true h.zero rfl
  | cons c l =>
    rw [h.head]
    exact iff_of_false h.head_ne_zero (List.cons_ne_nil c l)

/-- A zero written over a byte of a string cuts it in two. -/
theorem cut (h : CString m off (p ++ c :: rest)) :
    CString (memcpy m (off + p.length) [0]) off p ∧
      CString (memcpy m (off + p.length) [0]) (off + p.length + 1) rest := by
  have hself : memcpy m (off + p.length) [0] (off + p.length) = 0 := by
    rw [memcpy_inside le_rfl (by rw [Nat.sub_self]; exact Nat.one_pos)]
    simp
  refine ⟨⟨fun i hi => ?_, hself, fun hmem => h.nonzero (List.mem_append_left _ hmem)⟩, ?_⟩
  · rw [memcpy_outside (Or.inl (by omega)), h.chars i (by rw [List.length_append]; omega),
      List.getElem_append_left hi]
  · apply h.append.tail.congr
    intro i _
    exact memcpy_outside (Or.inr (by rw [List.length_singleton]; omega))

end CString

section Pieces

variable {α : Type*} {sep : α} {l p rest : List α}

lemma takeWhile_sublist_filter (f : α → Bool) (l : List α) : (l.takeWhile f).Sublist (l.filter f) := by
  have hself : (l.takeWhile f).filter f = l.takeWhile f := by
    apply List.filter_eq_self.mpr
    intro x hx
    exact List.mem_takeWhile_imp hx
  rw [← hself]
  exact (List.takeWhile_sublist f).filter f

/-- From a separator that stands first or behind another one on, there are only separators. -/
def EmptyPiecesLast (sep : α) (l : List α) : Prop :=
  ∀ a b, l = a ++ sep :: b → (a = [] ∨ a.getLast? = some sep) → ∀ c ∈ b, c = sep

lemma emptyPiecesLast_of_notMem (h : sep ∉ l) : EmptyPiecesLast sep l := by
  rintro a b rfl _
  exact absurd (List.mem_append_right a List.mem_cons_self) h

lemma emptyPiecesLast_nil_cut : EmptyPiecesLast sep (sep :: rest) ↔ ∀ c ∈ rest, c = sep := by
  constructor
  · intro h
    exact h [] rest rfl (Or.inl rfl)
  · intro h a b heq _ c hc
    cases a with
    | nil =>
      rw [List.nil_append, List.cons.injEq] at heq
      exact h c (heq.2 ▸ hc)
    | cons d a =>
      rw [List.cons_append, List.cons.injEq] at heq
      exact h c (heq.2 ▸ List.mem_append_right a (List.mem_cons_of_mem sep hc))

lemma emptyPiecesLast_cut (hp : sep ∉ p) (hne : p ≠ []) :
    EmptyPiecesLast sep (p ++ sep :: rest) ↔ EmptyPiecesLast sep rest := by
  constructor
  · intro h a b heq ha
    apply h (p ++ sep :: a) b
    · rw [heq, List.append_assoc, List.cons_append]
    · right
      rw [List.getLast?_append, List.getLast?_cons]
      rcases ha with rfl | ha
      · rfl
      · rw [ha]
        rfl
  · intro h a b heq ha
    obtain ⟨t, rfl, ht⟩ | ⟨t, rfl, ht⟩ := List.append_eq_append_iff.mp heq
    · cases t with
      | nil =>
        rw [List.append_nil] at ha
        rcases ha with rfl | ha
        · exact absurd rfl hne
        · exact absurd (List.mem_of_getLast? ha) hp
      | cons d t =>
        rw [List.cons_append, List.cons.injEq] at ht
        obtain ⟨rfl, rfl⟩ := ht
        apply h t b rfl
        rcases ha with ha | ha
        · cases List.append_eq_nil_iff.mp ha |>.2
        · rw [List.getLast?_append, List.getLast?_cons] at ha
          cases hlast : t.getLast? with
          | none => exact Or.inl (List.getLast?_eq_none_iff.mp hlast)
          | some x =>
            right
            rw [hlast] at ha
            exact ha
    · cases t with
      | nil =>
        rw [List.append_nil] at hp
        rw [List.append_nil] at hne
        rcases ha with rfl | ha
        · exact absurd rfl hne
        · exact absurd (List.mem_of_getLast? ha) hp
      | cons d t =>
        rw [List.cons_append, List.cons.injEq] at ht
        obtain ⟨rfl, _⟩ := ht
        exact absurd (List.mem_append_right a List.mem_cons_self) hp

variable [DecidableEq α]

/-- Induction over the pieces of a list: the last one, and one in front of a separator. -/
theorem pieceInduction (sep : α) {P : List α → Prop} (hlast : ∀ l, sep ∉ l → P l)
    (hcut : ∀ p rest, sep ∉ p → P rest → P (p ++ sep :: rest)) (l : List α) : P l := by
  induction hn : l.length using Nat.strong_induction_on generalizing l with
  | _ n ih =>
    by_cases hmem : sep ∈ l
    · obtain ⟨p, rest, rfl, hp⟩ := List.eq_append_cons_of_mem hmem
      apply hcut p rest hp
      apply ih rest.length _ rest rfl
      rw [← hn, List.length_append, List.length_cons]
      omega
    · exact hlast l hmem

lemma splitOn_last (h : sep ∉ l) : l.splitOn sep = [l] := by
  apply List.splitOnP_eq_singleton
  intro x hx
  rw [beq_eq_false_iff_ne]
  rintro rfl
  exact h hx

lemma splitOn_cut (h : sep ∉ p) : (p ++ sep :: rest).splitOn sep = p :: rest.splitOn sep := by
  apply List.splitOnP_append_cons_of_forall_mem
  · intro x hx
    rw [beq_eq_false_iff_ne]
    rintro rfl
    exact h hx
  · exact beq_self_eq_true sep

lemma length_splitOn (l : List α) : (l.splitOn sep).length = l.count sep + 1 := by
  induction l using pieceInduction sep with
  | hlast l h =>
    rw [splitOn_last h, List.count_eq_zero.mpr h]
    rfl
  | hcut p rest h ih =>
    rw [splitOn_cut h, List.length_cons, ih, List.count_append, List.count_cons_self,
      List.count_eq_zero.mpr h]
    omega

lemma filter_splitOn_eq_nil : (l.splitOn sep).filter (· ≠ []) = [] ↔ ∀ c ∈ l, c = sep := by
  induction l using pieceInduction sep with
  | hlast l h =>
    rw [splitOn_last h]
    cases l with
    | nil => simp
    | cons c l =>
      have hne : c ≠ sep := by
        rintro rfl
        exact h List.mem_cons_self
      simp [hne]
  | hcut p rest h ih =>
    rw [splitOn_cut h]
    cases p with
    | nil => simpa using ih
    | cons c p =>
      have hne : c ≠ sep := by
        rintro rfl
        exact h List.mem_cons_self
      simp [hne]

/-- The non-empty pieces are the pieces in front of the first empty one exactly when empty
pieces come last. -/
theorem filter_eq_takeWhile_iff : (l.splitOn sep).filter (· ≠ []) = (l.splitOn sep).takeWhile (· ≠ []) ↔
    EmptyPiecesLast sep l := by
  induction l using pieceInduction sep with
  | hlast l h =>
    rw [splitOn_last h]
    apply iff_of_true _ (emptyPiecesLast_of_notMem h)
    cases l with
    | nil => rfl
    | cons c l => rfl
  | hcut p rest h ih =>
    rw [splitOn_cut h]
    cases p with
    | nil =>
      rw [List.nil_append, emptyPiecesLast_nil_cut, ← filter_splitOn_eq_nil]
      rfl
    | cons c p =>
      rw [emptyPiecesLast_cut h (List.cons_ne_nil c p), ← ih]
      simp

end Pieces

end CStructures.Lib
