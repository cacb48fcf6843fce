import CStructures.Lib.Run
import Mathlib.Algebra.BigOperators.Group.List.Basic
import Mathlib.Algebra.GroupWithZero.Nat
import Mathlib.Algebra.Order.Group.Nat

/-!
# Amortised costs

A run that counts what its steps cost. Where every step can pay with a fixed price and with what
a potential releases, a whole run costs no more than the prices of its steps. Buffers that
double when they are full are of this kind.
-/

namespace CStructures.Lib

variable {S L : Type*}

/-- A step that adds its cost to a counter. -/
def Charged (step : S → L → S → Prop) (cost : S → L → Nat) (c : S × Nat) (l : L) (c' : S × Nat) : Prop :=
  step c.1 l c'.1 ∧ c'.2 = c.2 + cost c.1 l

theorem Run.uncharged {step : S → L → S → Prop} {cost : S → L → Nat} {c c' : S × Nat} {ls : List L}
    (h : Run (Charged step cost) c ls c') : Run step c.1 ls c'.1 := by
  induction h with
  | nil => exact .nil _
  | cons hfirst _ ih => exact .cons hfirst.1 ih

/-- The potential method, for costs that are worth `w` each. -/
theorem Run.amortized {step : S → L → S → Prop} {cost : S → L → Nat} {price : L → Nat} (w : Nat)
    (Φ : S → Nat) (I : S → Prop)
    (hstep : ∀ s l s', I s → step s l s' → I s' ∧ w * cost s l + Φ s' ≤ Φ s + price l)
    {c c' : S × Nat} {ls : List L} (hI : I c.1) (h : Run (Charged step cost) c ls c') :
    I c'.1 ∧ w * c'.2 + Φ c'.1 ≤ w * c.2 + Φ c.1 + (ls.map price).sum := by
  induction h with
  | nil => exact ⟨hI, Nat.le_add_right _ _⟩
  | @cons c c₁ c' l ls hfirst _ ih =>
    obtain ⟨hI₁, hpay⟩ := hstep _ _ _ hI hfirst.1
    obtain ⟨hI', hrest⟩ := ih hI₁
    refine ⟨hI', ?_⟩
    rw [hfirst.2, Nat.mul_add] at hrest
    rw [List.map_cons, List.sum_cons]
    omega

def chargedExec (exec : S → L → Option S) (cost : S → L → Nat) (c : S × Nat) (l : L) : Option (S × Nat) :=
  (exec c.1 l).map fun s => (s, c.2 + cost c.1 l)

lemma chargedExec_step {exec : S → L → Option S} {step : S → L → S → Prop} {cost : S → L → Nat}
    (hexec : ∀ s l s', exec s l = some s' → step s l s') (c : S × Nat) (l : L) (c' : S × Nat)
    (h : chargedExec exec cost c l = some c') : Charged step cost c l c' := by
  obtain ⟨s, hs, rfl⟩ := Option.map_eq_some_iff.mp h
  exact ⟨hexec _ _ _ hs, rfl⟩

/-! ### Buffers -/

/-- The number of entries in a buffer, and of those that it has room for. -/
structure Room where
  count : Nat
  capacity : Nat

/-- What a call can do to a buffer that doubles at least when it is full. It moves `moved`
entries to a new buffer, and `price` is what it pays for it. -/
inductive Doubles : Room → Nat → Nat → Room → Prop
  | keep {n n' cap price} (h : n' ≤ n) : Doubles ⟨n, cap⟩ 0 price ⟨n', cap⟩
  | add {n n' cap} (h : n' ≤ n + 1) : Doubles ⟨n, cap⟩ 0 2 ⟨n', cap⟩
  | grow {n n' moved cap cap'} (hfull : n = cap) (hdouble : 2 * cap ≤ cap') (hmoved : moved ≤ n)
      (h : n' ≤ n + 1) : Doubles ⟨n, cap⟩ moved 2 ⟨n', cap'⟩
  | reserve {n n' moved cap cap' size} (hroom : n ≤ cap) (hsize : cap < size) (hcap : size ≤ cap')
      (hmoved : moved ≤ n) (h : n' ≤ n) : Doubles ⟨n, cap⟩ moved size ⟨n', cap'⟩
  | resize {n n' moved cap cap'} (hroom : n ≤ cap) (hcap : cap ≤ cap') (hn : n' ≤ cap')
      (hmoved : moved ≤ n) (hkeep : cap' ≤ n' ∨ moved = 0) :
      Doubles ⟨n, cap⟩ moved (2 * n') ⟨n', cap'⟩
  | drop {n cap price} : Doubles ⟨n, cap⟩ 0 price ⟨0, 0⟩

/-- What the entries in the upper half of a buffer have paid for its next growth. -/
def Room.saved (r : Room) : Nat := 2 * r.count - r.capacity

theorem Doubles.pays {r r' : Room} {moved price : Nat} (h : Doubles r moved price r') :
    1 * moved + r'.saved ≤ r.saved + price := by
  unfold Room.saved
  cases h with
  | keep => dsimp only; omega
  | add => dsimp only; omega
  | grow => dsimp only; omega
  | reserve => dsimp only; omega
  | resize _ _ _ _ hkeep => dsimp only; omega
  | drop => dsimp only; omega

end CStructures.Lib
