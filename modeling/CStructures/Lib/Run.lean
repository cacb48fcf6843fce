import Mathlib.Order.Bounds.Basic
import Mathlib.Tactic.Common

/-!
# Runs of labelled steps

A run is a finite sequence of steps, each carrying a label (the call that is made and the
answer it gives). Invariants and simulations are proved for one step and transported to
every run here.
-/

namespace CStructures.Lib

variable {S A L : Type*}

/-- `Run step s ls s'`: the steps labelled `ls`, in order, lead from `s` to `s'`. -/
inductive Run (step : S → L → S → Prop) : S → List L → S → Prop
  | nil (s : S) : Run step s [] s
  | cons {s s' s'' : S} {l : L} {ls : List L} :
      step s l s' → Run step s' ls s'' → Run step s (l :: ls) s''

namespace Run

variable {step step' : S → L → S → Prop} {s s' s'' : S} {l : L} {ls ls' : List L}

theorem append (h : Run step s ls s') (h' : Run step s' ls' s'') : Run step s (ls ++ ls') s'' := by
  induction h with
  | nil => exact h'
  | cons hstep _ ih => exact cons hstep (ih h')

theorem snoc (h : Run step s ls s') (hstep : step s' l s'') : Run step s (ls ++ [l]) s'' :=
  h.append (cons hstep (nil s''))

theorem mono (hsub : ∀ s l s', step s l s' → step' s l s') (h : Run step s ls s') :
    Run step' s ls s' := by
  induction h with
  | nil => exact nil _
  | cons hstep _ ih => exact cons (hsub _ _ _ hstep) ih

/-- The same run under other labels. -/
theorem map {L' : Type*} {step' : S → L' → S → Prop} (f : L → L')
    (hsub : ∀ s l s', step s l s' → step' s (f l) s') (h : Run step s ls s') :
    Run step' s (ls.map f) s' := by
  induction h with
  | nil => exact nil _
  | cons hstep _ ih => exact cons (hsub _ _ _ hstep) ih

/-- What every step preserves holds wherever a run ends. -/
theorem invariant (I : S → Prop) (hstep : ∀ s l s', I s → step s l s' → I s') (hs : I s)
    (h : Run step s ls s') : I s' := by
  induction h with
  | nil => exact hs
  | cons hfirst _ ih => exact ih (hstep _ _ _ hs hfirst)

/-- An invariant that knows the number of steps. -/
theorem indexed (I : Nat → S → Prop) {k : Nat} (hstep : ∀ k s l s', l ∈ ls → I k s → step s l s' → I (k + 1) s')
    (hs : I k s) (h : Run step s ls s') : I (k + ls.length) s' := by
  induction h generalizing k with
  | nil => exact hs
  | @cons s s₁ s' l ls hfirst _ ih =>
    have hrest := ih (fun k s l' s' hl => hstep k s l' s' (List.mem_cons_of_mem l hl))
      (hstep k s l s₁ List.mem_cons_self hs hfirst)
    rwa [Nat.add_right_comm] at hrest

/-- Steps that change nothing can be left out. -/
theorem filter (I : S → Prop) (p : L → Bool)
    (hstep : ∀ s l s', I s → step s l s' → I s' ∧ (p l = false → s' = s)) (hs : I s) (h : Run step s ls s') :
    Run step s (ls.filter p) s' := by
  induction h with
  | nil => exact nil _
  | @cons s s₁ s₂ l ls hfirst _ ih =>
    obtain ⟨hs₁, hkeep⟩ := hstep s l s₁ hs hfirst
    cases hp : p l with
    | true =>
      rw [List.filter_cons_of_pos hp]
      exact cons hfirst (ih hs₁)
    | false =>
      obtain rfl := hkeep hp
      rw [List.filter_cons_of_neg (by simp [hp])]
      exact ih hs

/-- Forward simulation: a relation that every concrete step can be matched along relates
the two ends of matching runs with the same labels. -/
theorem simulate {astep : A → L → A → Prop} (R : S → A → Prop)
    (hstep : ∀ s a l s', R s a → step s l s' → ∃ a', astep a l a' ∧ R s' a')
    {a : A} (hs : R s a) (h : Run step s ls s') : ∃ a', Run astep a ls a' ∧ R s' a' := by
  induction h generalizing a with
  | nil => exact ⟨a, nil a, hs⟩
  | cons hfirst _ ih =>
    obtain ⟨a', hastep, hr⟩ := hstep _ _ _ _ hs hfirst
    obtain ⟨a'', harun, hr'⟩ := ih hr
    exact ⟨a'', cons hastep harun, hr'⟩

end Run

variable {C R : Type*}

/-- Make the calls `cs` in order with an executable step; the labels pair each call with
its answer. -/
def runCalls (exec : S → C → Option (R × S)) : S → List C → Option (List (C × R) × S)
  | s, [] => some ([], s)
  | s, c :: cs =>
    match exec s c with
    | none => none
    | some (r, s') => (runCalls exec s' cs).map fun p => ((c, r) :: p.1, p.2)

theorem Run.of_runCalls {exec : S → C → Option (R × S)} {step : S → C × R → S → Prop}
    (hexec : ∀ s c r s', exec s c = some (r, s') → step s (c, r) s') {cs : List C} {s s' : S}
    {ls : List (C × R)} (h : runCalls exec s cs = some (ls, s')) : Run step s ls s' := by
  induction cs generalizing s ls with
  | nil =>
    simp only [runCalls, Option.some.injEq, Prod.mk.injEq] at h
    obtain ⟨rfl, rfl⟩ := h
    exact nil s
  | cons c cs ih =>
    unfold runCalls at h
    split at h
    · cases h
    · next r s1 hc =>
      obtain ⟨⟨ls', s2⟩, hrest, heq⟩ := Option.map_eq_some_iff.mp h
      simp only [Prod.mk.injEq] at heq
      obtain ⟨rfl, rfl⟩ := heq
      exact cons (hexec _ _ _ _ hc) (ih hrest)

/-- Steps that are executed by a function make up a run. -/
theorem Run.of_foldlM {exec : S → L → Option S} {step : S → L → S → Prop}
    (hexec : ∀ s l s', exec s l = some s' → step s l s') {ls : List L} {s s' : S}
    (h : ls.foldlM exec s = some s') : Run step s ls s' := by
  induction ls generalizing s with
  | nil =>
    cases h
    exact nil _
  | cons l ls ih =>
    rw [List.foldlM_cons] at h
    obtain ⟨s1, hfirst, hrest⟩ := Option.bind_eq_some_iff.mp h
    exact cons (hexec _ _ _ hfirst) (ih hrest)

/-- The run behind a fold, when a view of the last state has been computed. -/
theorem Run.exists_of_foldlM {V : Type} {exec : S → L → Option S} {step : S → L → S → Prop}
    (hexec : ∀ s l s', exec s l = some s' → step s l s') {ls : List L} {s : S} {view : S → V} {x : V}
    (h : (ls.foldlM exec s).map view = some x) : ∃ s', Run step s ls s' ∧ view s' = x := by
  obtain ⟨s', hfold, hview⟩ := Option.map_eq_some_iff.mp h
  exact ⟨s', of_foldlM hexec hfold, hview⟩

theorem Run.exists_of_runCalls {V : Type} {exec : S → C → Option (R × S)} {step : S → C × R → S → Prop}
    (hexec : ∀ s c r s', exec s c = some (r, s') → step s (c, r) s') {cs : List C} {s : S}
    {view : List (C × R) × S → V} {x : V} (h : (runCalls exec s cs).map view = some x) :
    ∃ ls s', Run step s ls s' ∧ view (ls, s') = x := by
  obtain ⟨⟨ls, s'⟩, hcalls, hview⟩ := Option.map_eq_some_iff.mp h
  exact ⟨ls, s', of_runCalls hexec hcalls, hview⟩

/-- The largest value of `f` at the states that a fold passes. -/
def foldPeak (f : A → Nat) (g : A → L → A) : A → List L → Nat
  | a, [] => f a
  | a, l :: ls => max (f a) (foldPeak f g (g a l) ls)

lemma le_foldPeak (f : A → Nat) (g : A → L → A) (a : A) (ls : List L) : f a ≤ foldPeak f g a ls := by
  cases ls with
  | nil => exact le_rfl
  | cons l ls => exact le_max_left _ _

theorem isGreatest_foldPeak (f : A → Nat) (g : A → L → A) (a : A) (ls : List L) :
    IsGreatest {n | ∃ pre, pre <+: ls ∧ f (pre.foldl g a) = n} (foldPeak f g a ls) := by
  induction ls generalizing a with
  | nil =>
    refine ⟨⟨[], List.prefix_rfl, rfl⟩, ?_⟩
    rintro n ⟨pre, hpre, rfl⟩
    obtain rfl := List.prefix_nil.mp hpre
    exact le_rfl
  | cons l ls ih =>
    obtain ⟨⟨pre, hpre, hpeak⟩, hbound⟩ := ih (g a l)
    refine ⟨?_, ?_⟩
    · rcases le_total (f a) (foldPeak f g (g a l) ls) with h | h
      · exact ⟨l :: pre, List.cons_prefix_cons.mpr ⟨rfl, hpre⟩, hpeak.trans (max_eq_right h).symm⟩
      · exact ⟨[], List.nil_prefix, (max_eq_left h).symm⟩
    · rintro n ⟨pre', hpre', rfl⟩
      cases pre' with
      | nil => exact le_max_left _ _
      | cons l' pre' =>
        obtain ⟨rfl, hrest⟩ := List.cons_prefix_cons.mp hpre'
        exact (hbound ⟨pre', hrest, rfl⟩).trans (le_max_right _ _)

end CStructures.Lib
