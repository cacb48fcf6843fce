import Mathlib.Logic.Function.Iterate
import Mathlib.Order.Nat
import Mathlib.Data.Nat.Find
import Mathlib.Tactic.Common

/-!
# Loops with fuel

`loop exit next fuel s` runs a loop whose head tests `exit` and whose body is `next`.
It returns the value with which the loop is left, or `none` when `fuel` passes were not
enough. A loop that never ends returns `none` for every amount of fuel.
-/

namespace CStructures.Lib

variable {σ ρ : Type*}

/-- Run `next` until `exit` answers, for at most `fuel` tests. -/
def loop (exit : σ → Option ρ) (next : σ → σ) : Nat → σ → Option ρ
  | 0, _ => none
  | fuel + 1, s =>
    match exit s with
    | some r => some r
    | none => loop exit next fuel (next s)

@[simp] lemma loop_zero (exit : σ → Option ρ) (next : σ → σ) (s : σ) :
    loop exit next 0 s = none := rfl

lemma loop_succ_of_exit {exit : σ → Option ρ} {next : σ → σ} {fuel : Nat} {s : σ} {r : ρ}
    (h : exit s = some r) : loop exit next (fuel + 1) s = some r := by
  simp only [loop, h]

lemma loop_succ_of_none {exit : σ → Option ρ} {next : σ → σ} {fuel : Nat} {s : σ}
    (h : exit s = none) : loop exit next (fuel + 1) s = loop exit next fuel (next s) := by
  simp only [loop, h]

/-- A loop returns `r` exactly when it leaves with `r` after some number of passes below
the fuel, none of the earlier tests having answered. -/
theorem loop_eq_some_iff {exit : σ → Option ρ} {next : σ → σ} {fuel : Nat} {s : σ} {r : ρ} :
    loop exit next fuel s = some r ↔
      ∃ n < fuel, (∀ k < n, exit (next^[k] s) = none) ∧ exit (next^[n] s) = some r := by
  induction fuel generalizing s with
  | zero => simp
  | succ fuel ih =>
    cases hs : exit s with
    | some q =>
      rw [loop_succ_of_exit hs]
      constructor
      · rintro h
        exact ⟨0, by omega, by simp, by simpa [hs] using h⟩
      · rintro ⟨n, _, hbefore, hn⟩
        cases n with
        | zero => simpa [hs] using hn
        | succ n => simpa [hs] using hbefore 0 (by omega)
    | none =>
      rw [loop_succ_of_none hs, ih]
      constructor
      · rintro ⟨n, hn, hbefore, hexit⟩
        refine ⟨n + 1, by omega, ?_, by rwa [Function.iterate_succ_apply]⟩
        intro k hk
        cases k with
        | zero => exact hs
        | succ k => rw [Function.iterate_succ_apply]; exact hbefore k (by omega)
      · rintro ⟨n, hn, hbefore, hexit⟩
        cases n with
        | zero => simp [hs] at hexit
        | succ n =>
          refine ⟨n, by omega, ?_, by rwa [Function.iterate_succ_apply] at hexit⟩
          intro k hk
          have hk' := hbefore (k + 1) (by omega)
          rwa [Function.iterate_succ_apply] at hk'

/-- A loop whose test answers after `n` passes is left by then. -/
lemma loop_of_exit {exit : σ → Option ρ} {next : σ → σ} {fuel n : Nat} {s : σ}
    (h : exit (next^[n] s) ≠ none) (hn : n < fuel) : ∃ r, loop exit next fuel s = some r := by
  classical
  have hex : ∃ n, exit (next^[n] s) ≠ none := ⟨n, h⟩
  obtain ⟨r, hr⟩ := Option.ne_none_iff_exists'.mp (Nat.find_spec hex)
  have hle : Nat.find hex ≤ n := Nat.find_min' hex h
  exact ⟨r, loop_eq_some_iff.mpr
    ⟨Nat.find hex, by omega, fun k hk => not_not.mp (Nat.find_min hex hk), hr⟩⟩

end CStructures.Lib
