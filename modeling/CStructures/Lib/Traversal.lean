import CStructures.Lib.OpenAddressing

/-!
# Traversals with changes

A loop over the positions of a table runs its body on the keys that it meets. The body may bury
entries, the one that it is given or others, but it stores none. Such a loop goes over the keys
of the table that it started with, and leaves out those that are gone when their turn comes.
-/

namespace CStructures.Lib

variable {S K V P : Type*}

/-- Run `body` on the keys in order, on each that is still bound when its turn comes. -/
def visitEach (get : S → K → Option V) (body : S → K → V → S) : List K → S → S
  | [], s => s
  | k :: ks, s =>
    match get s k with
    | none => visitEach get body ks s
    | some v => visitEach get body ks (body s k v)

section VisitEach

variable {get : S → K → Option V} {body : S → K → V → S} {k : K} {v : V} {ks : List K} {s : S}

lemma visitEach_absent (h : get s k = none) :
    visitEach get body (k :: ks) s = visitEach get body ks s := by
  rw [visitEach, h]

lemma visitEach_bound (h : get s k = some v) :
    visitEach get body (k :: ks) s = visitEach get body ks (body s k v) := by
  rw [visitEach, h]

/-- A body changes only the binding that it is given. -/
def ChangesOwn (get : S → K → Option V) (body : S → K → V → S) (change : K → V → Option V) : Prop :=
  ∀ s k v, get s k = some v →
    get (body s k v) k = change k v ∧ ∀ k', k' ≠ k → get (body s k v) k' = get s k'

variable {change : K → V → Option V}

lemma visitEach_of_notMem (h : ChangesOwn get body change) (hk : k ∉ ks) :
    get (visitEach get body ks s) k = get s k := by
  induction ks generalizing s with
  | nil => rfl
  | cons k₁ ks ih =>
    obtain ⟨hne, hrest⟩ := not_or.mp (mt List.mem_cons.mpr hk)
    cases hget : get s k₁ with
    | none =>
      rw [visitEach_absent hget]
      exact ih hrest
    | some v =>
      rw [visitEach_bound hget, ih hrest]
      exact (h s k₁ v hget).2 k hne

/-- Every binding is changed once. -/
theorem visitEach_of_mem (h : ChangesOwn get body change) (hnodup : ks.Nodup) (hk : k ∈ ks) :
    get (visitEach get body ks s) k = (get s k).bind (change k) := by
  induction ks generalizing s with
  | nil => cases hk
  | cons k₁ ks ih =>
    obtain ⟨hfresh, hnodup⟩ := List.nodup_cons.mp hnodup
    rcases List.mem_cons.mp hk with rfl | hk
    · cases hget : get s k with
      | none => rw [visitEach_absent hget, visitEach_of_notMem h hfresh, hget, Option.bind_none]
      | some v =>
        rw [visitEach_bound hget, visitEach_of_notMem h hfresh, (h s k v hget).1, Option.bind_some]
    · have hne : k ≠ k₁ := fun heq => hfresh (heq ▸ hk)
      cases hget : get s k₁ with
      | none =>
        rw [visitEach_absent hget]
        exact ih hnodup hk
      | some v =>
        rw [visitEach_bound hget, ih hnodup hk, (h s k₁ v hget).2 k hne]

/-- A log that the body writes lists the bindings at the start. -/
theorem visitEach_log {T : Type*} (log : S → List T) (entry : K → V → T)
    (hlog : ∀ s k v, log (body s k v) = log s ++ [entry k v]) (h : ChangesOwn get body change)
    (hnodup : ks.Nodup) : log (visitEach get body ks s) =
      log s ++ ks.filterMap fun k => (get s k).map (entry k) := by
  induction ks generalizing s with
  | nil => exact (List.append_nil _).symm
  | cons k ks ih =>
    obtain ⟨hfresh, hnodup⟩ := List.nodup_cons.mp hnodup
    cases hget : get s k with
    | none => rw [visitEach_absent hget, ih hnodup, List.filterMap_cons, hget, Option.map_none]
    | some v =>
      have hsame : ∀ k' ∈ ks, (get (body s k v) k').map (entry k') = (get s k').map (entry k') := by
        intro k' hk'
        rw [(h s k v hget).2 k' fun heq => hfresh (heq ▸ hk')]
      rw [visitEach_bound hget, ih hnodup, hlog, List.filterMap_congr hsame, List.filterMap_cons, hget,
        Option.map_some, List.append_assoc, List.singleton_append]

end VisitEach

/-! ### Tables whose entries are buried -/

/-- Entries have been buried, and none have been stored. -/
def Thinned (t t' : P → Cell K) : Prop :=
  ∀ p, t' p = t p ∨ t' p = .tombstone ∧ ∃ k, t p = .live k

namespace Thinned

variable {t t' t'' : P → Cell K} {path : K → Nat → P} {p : P} {k : K}

lemma refl (t : P → Cell K) : Thinned t t := fun _ => Or.inl rfl

lemma trans (h : Thinned t t') (h' : Thinned t' t'') : Thinned t t'' := by
  intro p
  rcases h' p with heq | ⟨htomb, k, hlive⟩
  · rw [heq]
    exact h p
  · refine Or.inr ⟨htomb, k, ?_⟩
    rcases h p with heq | ⟨htomb', _⟩
    · rw [← heq, hlive]
    · rw [htomb'] at hlive
      cases hlive

lemma bury [DecidableEq P] (h : t p = .live k) : Thinned t (Function.update t p .tombstone) := by
  intro q
  rcases eq_or_ne q p with rfl | hne
  · exact Or.inr ⟨Function.update_self .., k, h⟩
  · exact Or.inl (Function.update_of_ne hne ..)

/-- What is still stored has not moved. -/
lemma live (h : Thinned t t') (hlive : t' p = .live k) : t p = .live k := by
  rcases h p with heq | ⟨htomb, _⟩
  · rw [← heq, hlive]
  · rw [htomb] at hlive
    cases hlive

lemma stored (h : Thinned t t') (hs : Stored t' k) : Stored t k :=
  let ⟨p, hp⟩ := hs
  ⟨p, h.live hp⟩

lemma tombstone (h : Thinned t t') (htomb : t p = .tombstone) : t' p = .tombstone := by
  rcases h p with heq | ⟨htomb', _⟩
  · rw [heq, htomb]
  · exact htomb'

/-- A key is still where it was, or has gone. -/
lemma live_or_gone (h : Thinned t t') (hwf : WellFormed path t) (hlive : t p = .live k) :
    t' p = .live k ∨ t' p = .tombstone ∧ ¬Stored t' k := by
  rcases h p with heq | ⟨htomb, _⟩
  · exact Or.inl (heq.trans hlive)
  · refine Or.inr ⟨htomb, fun ⟨q, hq⟩ => ?_⟩
    rw [hwf.unique q p k (h.live hq) hlive, htomb] at hq
    cases hq

end Thinned

end CStructures.Lib
