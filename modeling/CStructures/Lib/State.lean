import Mathlib.Tactic.Common

/-!
# Partial state transformers

Programs over a state that may fail to return are `StateT σ Option α`. A sequence that has
returned is taken apart into its steps with `bind_eq_some`.
-/

namespace CStructures.Lib

variable {σ α β : Type}

lemma bind_eq_some {x : StateT σ Option α} {f : α → StateT σ Option β} {s : σ} {r : β × σ} :
    (x >>= f) s = some r ↔ ∃ a s', x s = some (a, s') ∧ f a s' = some r := by
  change (x s).bind (fun p => f p.1 p.2) = some r ↔ _
  simp only [Option.bind_eq_some_iff, Prod.exists]

lemma pure_eq_some {a b : α} {s s' : σ} :
    (pure a : StateT σ Option α) s = some (b, s') ↔ a = b ∧ s = s' := by
  change some (a, s) = some (b, s') ↔ _
  simp

lemma get_eq_some {a s s' : σ} : (get : StateT σ Option σ) s = some (a, s') ↔ s = a ∧ s = s' := by
  change some (s, s) = some (a, s') ↔ _
  simp

lemma set_eq_some {a s s' : σ} {u : PUnit} :
    (set a : StateT σ Option PUnit) s = some (u, s') ↔ a = s' := by
  change some (PUnit.unit, a) = some (u, s') ↔ _
  simp

lemma modify_eq_some {f : σ → σ} {s s' : σ} {u : PUnit} :
    (modify f : StateT σ Option PUnit) s = some (u, s') ↔ f s = s' := by
  change some (PUnit.unit, f s) = some (u, s') ↔ _
  simp

lemma lift_eq_some {x : Option α} {a : α} {s s' : σ} :
    (StateT.lift x : StateT σ Option α) s = some (a, s') ↔ x = some a ∧ s = s' := by
  cases x with
  | none =>
    constructor
    · intro h
      cases h
    · rintro ⟨h, _⟩
      cases h
  | some b =>
    change some (b, s) = some (a, s') ↔ _
    simp

lemma lift_bind_eq_some {x : Option α} {f : α → StateT σ Option β} {s : σ} {r : β × σ} :
    ((StateT.lift x : StateT σ Option α) >>= f) s = some r ↔ ∃ a, x = some a ∧ f a s = some r := by
  rw [bind_eq_some]
  constructor
  · rintro ⟨a, s', hlift, hrest⟩
    obtain ⟨hx, rfl⟩ := lift_eq_some.mp hlift
    exact ⟨a, hx, hrest⟩
  · rintro ⟨a, hx, hrest⟩
    exact ⟨a, s, lift_eq_some.mpr ⟨hx, rfl⟩, hrest⟩

end CStructures.Lib
