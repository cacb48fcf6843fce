import Mathlib.Tactic.Common

/-!
# Computations with a log

A computation with a value and the list of events it has caused, such as the memory
accesses of a function. What a function returns is stated about `val`, and what it touches
about `log`; neither depends on the proofs about the other.
-/

namespace CStructures.Lib

@[ext]
structure Logged (ε α : Type) where
  val : α
  log : List ε

namespace Logged

variable {ε α β : Type}

instance monad : Monad (Logged ε) where
  pure a := ⟨a, []⟩
  bind x f := ⟨(f x.val).val, x.log ++ (f x.val).log⟩

/-- Record one event. -/
def tell (e : ε) : Logged ε Unit := ⟨(), [e]⟩

@[simp] lemma val_pure (a : α) : (pure a : Logged ε α).val = a := rfl

@[simp] lemma log_pure (a : α) : (pure a : Logged ε α).log = [] := rfl

@[simp] lemma val_bind (x : Logged ε α) (f : α → Logged ε β) : (x >>= f).val = (f x.val).val := rfl

@[simp] lemma log_bind (x : Logged ε α) (f : α → Logged ε β) :
    (x >>= f).log = x.log ++ (f x.val).log := rfl

@[simp] lemma val_map (f : α → β) (x : Logged ε α) : (f <$> x).val = f x.val := rfl

@[simp] lemma log_map (f : α → β) (x : Logged ε α) : (f <$> x).log = x.log :=
  List.append_nil _

@[simp] lemma val_tell (e : ε) : (tell e).val = () := rfl

@[simp] lemma log_tell (e : ε) : (tell e).log = [e] := rfl

@[simp] lemma val_ite {p : Prop} [Decidable p] (x y : Logged ε α) :
    (if p then x else y).val = if p then x.val else y.val := by
  split <;> rfl

@[simp] lemma log_ite {p : Prop} [Decidable p] (x y : Logged ε α) :
    (if p then x else y).log = if p then x.log else y.log := by
  split <;> rfl

end Logged

end CStructures.Lib
