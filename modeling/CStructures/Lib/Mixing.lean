import Mathlib.Data.Nat.ModEq
import Mathlib.Data.Nat.Prime.Basic
import Mathlib.Data.UInt
import Mathlib.Tactic.Common

/-!
# Mixing steps of hash functions

A hash function folds its input into a word by steps that add or xor a shifted copy of the
word. Each of these steps is injective for every width, so a fold of such steps never loses
a difference once it is in the state.
-/

namespace CStructures.Lib

section BitVec

variable {w k : Nat}

/-- A shift to the right fixes no word but zero. -/
lemma eq_zero_of_eq_ushiftRight (hk : 0 < k) {z : BitVec w} (h : z = z >>> k) : z = 0 := by
  apply BitVec.eq_of_toNat_eq
  have hz : z.toNat = z.toNat / 2 ^ k := by
    rw [← Nat.shiftRight_eq_div_pow, ← BitVec.toNat_ushiftRight, ← h]
  by_contra hne
  have hlt : z.toNat / 2 ^ k < z.toNat :=
    Nat.div_lt_self (Nat.pos_of_ne_zero hne) (Nat.one_lt_two_pow hk.ne')
  omega

lemma xor_exchange {a b c d : BitVec w} (h : a ^^^ b = c ^^^ d) : a ^^^ c = b ^^^ d := by
  have ha : a = c ^^^ d ^^^ b := by
    rw [← h, BitVec.xor_assoc, BitVec.xor_self, BitVec.xor_zero]
  rw [ha, BitVec.xor_assoc, BitVec.xor_comm (c ^^^ d), BitVec.xor_assoc, ← BitVec.xor_assoc c,
    BitVec.xor_self, BitVec.zero_xor]

theorem xor_ushiftRight_injective (hk : 0 < k) :
    Function.Injective fun x : BitVec w => x ^^^ (x >>> k) := by
  intro x y h
  have hz : x ^^^ y = (x ^^^ y) >>> k := by
    rw [BitVec.ushiftRight_xor_distrib]
    exact xor_exchange h
  exact BitVec.xor_eq_zero_iff.mp (eq_zero_of_eq_ushiftRight hk hz)

lemma toNat_add_shiftLeft (x : BitVec w) (k : Nat) :
    (x + (x <<< k)).toNat = (1 + 2 ^ k) * x.toNat % 2 ^ w := by
  rw [BitVec.toNat_add, BitVec.toNat_shiftLeft, Nat.shiftLeft_eq, Nat.add_mod_mod, Nat.add_mul,
    Nat.one_mul, Nat.mul_comm x.toNat]

/-- Adding a shifted copy multiplies by an odd number. -/
theorem add_shiftLeft_injective (hk : 0 < k) :
    Function.Injective fun x : BitVec w => x + (x <<< k) := by
  intro x y h
  have hodd : Nat.Coprime (2 ^ w) (1 + 2 ^ k) := by
    apply Nat.Coprime.pow_left
    rw [Nat.coprime_two_left]
    exact odd_one.add_even (even_two.pow_of_ne_zero hk.ne')
  have hmod : (1 + 2 ^ k) * x.toNat ≡ (1 + 2 ^ k) * y.toNat [MOD 2 ^ w] := by
    rw [Nat.ModEq, ← toNat_add_shiftLeft, ← toNat_add_shiftLeft]
    exact congrArg BitVec.toNat h
  apply BitVec.eq_of_toNat_eq
  exact (Nat.ModEq.cancel_left_of_coprime hodd hmod).eq_of_lt_of_lt x.isLt y.isLt

end BitVec

section UInt32

variable {k : UInt32}

theorem xor_shiftRight_injective_uint32 (hk : 0 < k.toNat % 32) :
    Function.Injective fun x : UInt32 => x ^^^ (x >>> k) := by
  intro x y h
  have hbits := congrArg UInt32.toBitVec h
  simp only [UInt32.toBitVec_xor, UInt32.toBitVec_shiftRight, BitVec.ushiftRight_eq'] at hbits
  exact UInt32.toBitVec_inj.mp (xor_ushiftRight_injective hk hbits)

theorem add_shiftLeft_injective_uint32 (hk : 0 < k.toNat % 32) :
    Function.Injective fun x : UInt32 => x + (x <<< k) := by
  intro x y h
  have hbits := congrArg UInt32.toBitVec h
  simp only [UInt32.toBitVec_add, UInt32.toBitVec_shiftLeft, BitVec.shiftLeft_eq'] at hbits
  exact UInt32.toBitVec_inj.mp (add_shiftLeft_injective hk hbits)

end UInt32

section Fold

variable {α σ : Type*} {f : σ → α → σ}

/-- A fold is injective in its start when every step is. -/
theorem foldl_injective (hstep : ∀ a, Function.Injective (f · a)) (as : List α) :
    Function.Injective fun s => as.foldl f s := by
  induction as with
  | nil => exact Function.injective_id
  | cons a as ih => exact ih.comp (hstep a)

/-- A single different element leads to a different state when the steps are injective both
in the state and in the element. -/
theorem foldl_ne_of_ne (hstep : ∀ a, Function.Injective (f · a))
    (helem : ∀ s, Function.Injective (f s)) {a b : α} (hab : a ≠ b) (pre post : List α) (s : σ) :
    (pre ++ a :: post).foldl f s ≠ (pre ++ b :: post).foldl f s := by
  rw [List.foldl_append, List.foldl_append, List.foldl_cons, List.foldl_cons]
  apply (foldl_injective hstep post).ne
  exact (helem _).ne hab

/-- Two lists of one length that differ in one place are equal before and behind it. -/
lemma exists_of_differ_once {as bs : List α} (hlen : as.length = bs.length)
    (hdiff : ∃! i : Nat, as[i]? ≠ bs[i]?) :
    ∃ pre a b post, a ≠ b ∧ as = pre ++ a :: post ∧ bs = pre ++ b :: post := by
  obtain ⟨i, hi, honly⟩ := hdiff
  have hsame : ∀ j, j ≠ i → as[j]? = bs[j]? := fun j hj => not_not.mp (mt (honly j) hj)
  have hia : i < as.length := by
    by_contra hge
    apply hi
    rw [List.getElem?_eq_none (by omega), List.getElem?_eq_none (by omega)]
  have hib : i < bs.length := by omega
  have htake : as.take i = bs.take i := by
    apply List.ext_getElem?
    intro j
    by_cases hj : j < i
    · rw [List.getElem?_take_of_lt hj, List.getElem?_take_of_lt hj, hsame j (by omega)]
    · rw [List.getElem?_take_eq_none (by omega), List.getElem?_take_eq_none (by omega)]
  have hdrop : as.drop (i + 1) = bs.drop (i + 1) := by
    apply List.ext_getElem?
    intro j
    rw [List.getElem?_drop, List.getElem?_drop, hsame _ (by omega)]
  refine ⟨as.take i, as[i], bs[i], as.drop (i + 1), ?_, ?_, ?_⟩
  · simpa [List.getElem?_eq_getElem hia, List.getElem?_eq_getElem hib] using hi
  · rw [List.getElem_cons_drop, List.take_append_drop]
  · rw [hdrop, htake, List.getElem_cons_drop, List.take_append_drop]

end Fold

end CStructures.Lib
