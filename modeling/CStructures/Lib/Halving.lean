import Mathlib.Algebra.Order.Group.Nat
import Mathlib.Order.Bounds.Basic
import Mathlib.Tactic.Common

/-!
# Halving searches

A search for the first of `n` positions where a predicate fails, by passes that test the
middle of the remaining stretch. A stretch is its first position and its length; its two
parts have lengths that add up to one less than it, the right one never being the longer.
-/

namespace CStructures.Lib

variable {p : Nat → Prop} {n : Nat} {s : Nat × Nat}

/-- The position that is tested. -/
def middle (s : Nat × Nat) : Nat := s.1 + s.2 / 2

lemma middle_lt (hinside : s.1 + s.2 ≤ n) (hpos : 0 < s.2) : middle s < n := by
  unfold middle
  omega

/-- Behind the middle if the predicate holds there, and before it if not. -/
def halve (p : Nat → Prop) [DecidablePred p] (s : Nat × Nat) : Nat × Nat :=
  if p (middle s) then (middle s + 1, s.2 - s.2 / 2 - 1) else (s.1, s.2 / 2)

/-- The first position where `p` fails is in the stretch or follows it. -/
structure Brackets (p : Nat → Prop) (n : Nat) (s : Nat × Nat) : Prop where
  inside : s.1 + s.2 ≤ n
  before : ∀ i < s.1, p i
  behind : ∀ i, s.1 + s.2 ≤ i → i < n → ¬p i

lemma Brackets.start (p : Nat → Prop) (n : Nat) : Brackets p n (0, n) where
  inside := (Nat.zero_add n).le
  before _ hi := absurd hi (Nat.not_lt_zero _)
  behind i hi hin := by
    dsimp only at hi
    omega

/-- Nothing remains: the start of the stretch is where `p` fails first. -/
theorem Brackets.isLeast (h : Brackets p n s) (hlen : s.2 = 0) :
    IsLeast {i | i = n ∨ i < n ∧ ¬p i} s.1 := by
  have hinside := h.inside
  rw [hlen, Nat.add_zero] at hinside
  refine ⟨?_, ?_⟩
  · rcases hinside.eq_or_lt with heq | hlt
    · exact Or.inl heq
    · exact Or.inr ⟨hlt, h.behind _ (by omega) hlt⟩
  · rintro i (rfl | ⟨_, hfails⟩)
    · exact hinside
    · by_contra hlt
      exact hfails (h.before i (not_le.mp hlt))

variable [DecidablePred p]

lemma halve_length (p : Nat → Prop) [DecidablePred p] (s : Nat × Nat) : (halve p s).2 ≤ s.2 / 2 := by
  unfold halve
  split_ifs
  · dsimp only
    omega
  · exact le_rfl

lemma halve_lt_two_pow {k : Nat} (h : s.2 < 2 ^ (k + 1)) : (halve p s).2 < 2 ^ k := by
  have hhalf := halve_length p s
  rw [Nat.pow_succ] at h
  omega

/-- The stretch stays inside, whatever the predicate. -/
lemma halve_inside (hinside : s.1 + s.2 ≤ n) (hpos : 0 < s.2) :
    (halve p s).1 + (halve p s).2 ≤ n := by
  unfold halve middle
  split_ifs <;> (dsimp only; omega)

/-- With a predicate that holds before every position where it holds, a pass keeps the
answer in the stretch. -/
theorem Brackets.halve (h : Brackets p n s) (hdown : ∀ i j, i ≤ j → j < n → p j → p i)
    (hpos : 0 < s.2) : Brackets p n (halve p s) := by
  have hinside := h.inside
  have hmiddle := middle_lt hinside hpos
  refine ⟨halve_inside hinside hpos, ?_, ?_⟩
  · intro i hi
    unfold Lib.halve at hi
    split_ifs at hi with hp
    · exact hdown i (middle s) (Nat.lt_succ_iff.mp hi) hmiddle hp
    · exact h.before i hi
  · intro i hi hin
    unfold Lib.halve at hi
    split_ifs at hi with hp
    · refine h.behind i ?_ hin
      unfold middle at hi
      dsimp only at hi
      omega
    · exact fun hpi => hp (hdown (middle s) i hi hin hpi)

end CStructures.Lib
